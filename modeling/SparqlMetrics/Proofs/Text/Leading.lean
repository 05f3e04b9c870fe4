import SparqlMetrics.Proofs.Text.Byte
import SparqlMetrics.Proofs.Text.Integer

/-!
# Texts that denote integers

A text denotes an integer when it is white space, a sign or none, and digits. The reader of a
leading integer reads such a text to its end if the integer fits into a signed word of 64 bits, and
else finds it too large; it reads no other text to its end. Main statements:
`Text.leadingInteger_of_denotes`, `Text.denotes_of_leadingInteger`.
-/
namespace SparqlMetrics.Text

def IsWhite (s : Text) : Prop := ∀ b ∈ s, b.isSpace = true

/-- Which integer a text denotes. -/
inductive Denotes : Text → Int → Prop
  | plain {white digits : Text} : IsWhite white → IsDigits digits →
      Denotes (white ++ digits) (digitsValue digits)
  | plus {white digits : Text} : IsWhite white → IsDigits digits →
      Denotes (white ++ Byte.plus :: digits) (digitsValue digits)
  | minus {white digits : Text} : IsWhite white → IsDigits digits →
      Denotes (white ++ Byte.hyphen :: digits) (-digitsValue digits)

variable {s white digits : Text} {v : Int}

/-- White space in front of a byte of another class is passed over. -/
theorem dropWhile_white (h : IsWhite white) {b : Byte} (other : b.isSpace = false) (s : Text) :
    (white ++ b :: s).dropWhile Byte.isSpace = b :: s := by
  rw [List.dropWhile_append_of_pos h, List.dropWhile_cons, other, if_neg Bool.false_ne_true]

theorem exists_cons_of_isDigits (h : IsDigits digits) :
    ∃ b more, digits = b :: more ∧ b.isSpace = false ∧ b ≠ Byte.hyphen ∧ b ≠ Byte.plus := by
  obtain ⟨b, more, rfl⟩ := List.exists_cons_of_ne_nil h.1
  have classes : b.isDigit = true → b.isSpace = false ∧ b ≠ Byte.hyphen ∧ b ≠ Byte.plus :=
    Byte.forall_of_digits
      (P := fun b => b.isDigit = true → b.isSpace = false ∧ b ≠ Byte.hyphen ∧ b ≠ Byte.plus)
      (by decide) b
  exact ⟨b, more, rfl, classes (h.2 b List.mem_cons_self)⟩

/-- A leading integer, by the sign and the text behind it. -/
theorem leadingInteger_eq {negative : Bool} {body : Text}
    (sign : leadingSign (s.dropWhile Byte.isSpace) = (negative, body)) :
    leadingInteger s =
      if (body.takeWhile Byte.isDigit).isEmpty then .missing
      else if signedValue negative (body.takeWhile Byte.isDigit) < minInt64 ∨
          maxInt64 < signedValue negative (body.takeWhile Byte.isDigit) then .tooLarge
      else .read (signedValue negative (body.takeWhile Byte.isDigit))
        (body.dropWhile Byte.isDigit) := by
  rw [leadingInteger, sign]
  rfl

/-- A text that denotes an integer has a sign and digits behind its white space. -/
theorem leadingSign_of_denotes (h : Denotes s v) :
    ∃ negative digits, leadingSign (s.dropWhile Byte.isSpace) = (negative, digits) ∧
      IsDigits digits ∧ signedValue negative digits = v := by
  cases h with
  | @plain white digits hw hd =>
      obtain ⟨b, more, rfl, space, minus, plus⟩ := exists_cons_of_isDigits hd
      refine ⟨false, b :: more, ?_, hd, rfl⟩
      rw [dropWhile_white hw space]
      simp [leadingSign, minus, plus]
  | @plus white digits hw hd =>
      refine ⟨false, digits, ?_, hd, rfl⟩
      rw [dropWhile_white hw (by decide)]
      rfl
  | @minus white digits hw hd =>
      refine ⟨true, digits, ?_, hd, rfl⟩
      rw [dropWhile_white hw (by decide)]
      rfl

/-- A text with a sign and digits behind its white space denotes an integer. -/
theorem denotes_of_leadingSign {negative : Bool}
    (sign : leadingSign (s.dropWhile Byte.isSpace) = (negative, digits)) (hd : IsDigits digits) :
    Denotes s (signedValue negative digits) := by
  have white : IsWhite (s.takeWhile Byte.isSpace) := List.all_eq_true.mp List.all_takeWhile
  rw [← List.takeWhile_append_dropWhile (p := Byte.isSpace) (l := s)]
  unfold leadingSign at sign
  split at sign
  · next minus =>
    obtain ⟨rest, same⟩ := List.head?_eq_some_iff.mp minus
    rw [same, List.tail_cons] at sign
    obtain ⟨rfl, rfl⟩ := Prod.mk.inj sign
    rw [same]
    exact .minus white hd
  split at sign
  · next plus =>
    obtain ⟨rest, same⟩ := List.head?_eq_some_iff.mp plus
    rw [same, List.tail_cons] at sign
    obtain ⟨rfl, rfl⟩ := Prod.mk.inj sign
    rw [same]
    exact .plus white hd
  · obtain ⟨rfl, rfl⟩ := Prod.mk.inj sign
    exact .plain white hd

/-- A text that denotes an integer is read to its end if the integer fits. -/
theorem leadingInteger_of_denotes (h : Denotes s v) :
    leadingInteger s = if v < minInt64 ∨ maxInt64 < v then .tooLarge else .read v [] := by
  obtain ⟨negative, digits, sign, hd, rfl⟩ := leadingSign_of_denotes h
  have nonempty : digits.isEmpty = false := List.isEmpty_eq_false_iff.mpr hd.1
  obtain ⟨take, drop⟩ := takeWhile_digits hd endsDigits_nil
  rw [List.append_nil] at take drop
  rw [leadingInteger_eq sign, take, drop, nonempty, if_neg Bool.false_ne_true]

/-- A text that is read to its end denotes what is read, which fits. -/
theorem denotes_of_leadingInteger (h : leadingInteger s = .read v []) :
    Denotes s v ∧ minInt64 ≤ v ∧ v ≤ maxInt64 := by
  cases sign : leadingSign (s.dropWhile Byte.isSpace) with
  | mk negative body =>
      rw [leadingInteger_eq sign] at h
      split at h
      · cases h
      split at h
      · cases h
      next nonempty range =>
      obtain ⟨rfl, noRest⟩ := LeadingInteger.read.inj h
      have whole := List.takeWhile_append_dropWhile (p := Byte.isDigit) (l := body)
      rw [noRest, List.append_nil] at whole
      have digits : IsDigits body :=
        ⟨by simpa [whole] using nonempty, List.all_eq_true.mp (whole ▸ List.all_takeWhile)⟩
      rw [whole] at range ⊢
      rw [not_or, Int.not_lt, Int.not_lt] at range
      exact ⟨denotes_of_leadingSign sign digits, range⟩

/-- A text denotes one integer. -/
theorem Denotes.unique {w : Int} (h : Denotes s v) (other : Denotes s w) : v = w := by
  obtain ⟨negative, digits, sign, -, rfl⟩ := leadingSign_of_denotes h
  obtain ⟨negative', digits', sign', -, rfl⟩ := leadingSign_of_denotes other
  obtain ⟨rfl, rfl⟩ := Prod.mk.inj (sign.symm.trans sign')
  rfl

end SparqlMetrics.Text
