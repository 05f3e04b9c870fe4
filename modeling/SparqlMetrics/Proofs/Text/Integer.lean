import SparqlMetrics.Proofs.Text.Numeral

/-!
# Signed numerals

A numeral is an optional minus sign and digits that open with a zero only when there is no further
digit. Written numbers are such numerals, and each is read back from what stands in front of a byte
that is no digit. Main statement: `Text.integerPart?_ofInt`.
-/
namespace SparqlMetrics.Text

def EndsDigits (s : Text) : Prop := ∀ b, s.head? = some b → b.isDigit = false

theorem endsDigits_nil : EndsDigits [] := nofun

theorem head_ofNat (n : Nat) (positive : 0 < n) : (ofNat n).head? ≠ some 0x30 := by
  induction n using Nat.strongRecOn with
  | ind n ih =>
      unfold ofNat
      split
      · next small =>
        have all : ∀ m : Fin 10, 0 < m.val → digit m.val ≠ 0x30 := by decide
        exact fun same => all ⟨n, small⟩ positive (Option.some.inj same)
      · next large =>
        have front := ih (n / 10) (by omega) (by omega)
        rw [List.head?_append]
        have first : (ofNat (n / 10)).head? ≠ none := by
          simpa using (isDigits_ofNat (n / 10)).1
        obtain ⟨b, first⟩ := Option.ne_none_iff_exists'.mp first
        rw [first] at front ⊢
        exact front

theorem hasLeadingZero_ofNat (n : Nat) : hasLeadingZero (ofNat n) = false := by
  rcases Nat.eq_zero_or_pos n with rfl | positive
  · rw [ofNat]
    decide
  · have first := head_ofNat n positive
    simp [hasLeadingZero, first]

theorem takeWhile_digits {digits rest : Text} (h : IsDigits digits) (ends : EndsDigits rest) :
    (digits ++ rest).takeWhile Byte.isDigit = digits ∧
      (digits ++ rest).dropWhile Byte.isDigit = rest := by
  rw [List.takeWhile_append_of_pos h.2, List.dropWhile_append_of_pos h.2]
  cases rest with
  | nil => simp
  | cons b rest => simp [ends b rfl]

theorem ofInt_ne_nil (n : Int) : ofInt n ≠ [] := by
  cases n with
  | ofNat n => exact (isDigits_ofNat n).1
  | negSucc n => exact List.cons_ne_nil _ _

/-- A number in decimal is made of a minus sign and digits. -/
theorem of_mem_ofInt {n : Int} {b : Byte} (h : b ∈ ofInt n) :
    b = Byte.hyphen ∨ b.isDigit = true := by
  cases n with
  | ofNat n => exact .inr ((isDigits_ofNat n).2 b h)
  | negSucc n =>
      rcases List.mem_cons.mp h with sign | digit
      · exact .inl sign
      · exact .inr ((isDigits_ofNat (n + 1)).2 b digit)

/-- A number in decimal is read back with its sign. -/
theorem integerPart?_ofInt (n : Int) {rest : Text} (ends : EndsDigits rest) :
    integerPart? (ofInt n ++ rest) = some ((decide (n < 0), ofNat n.natAbs), rest) := by
  have digits := isDigits_ofNat n.natAbs
  have nonempty : (ofNat n.natAbs).isEmpty = false := List.isEmpty_eq_false_iff.mpr digits.1
  obtain ⟨take, drop⟩ := takeWhile_digits digits ends
  cases n with
  | ofNat n =>
      have plain : ((ofNat n ++ rest).head? == some Byte.hyphen) = false := by
        obtain ⟨b, tail, cut⟩ := List.exists_cons_of_ne_nil digits.1
        have isDigit := digits.2 b (cut ▸ List.mem_cons_self)
        have other : b ≠ Byte.hyphen := by
          rintro rfl
          exact absurd isDigit (by decide)
        change ofNat n = b :: tail at cut
        simpa [cut] using other
      have sign : decide ((n : Int) < 0) = false := decide_eq_false (by omega)
      change (ofNat n ++ rest).takeWhile _ = ofNat n at take
      change (ofNat n ++ rest).dropWhile _ = rest at drop
      change (ofNat n).isEmpty = false at nonempty
      simp only [integerPart?, ofInt, plain, Bool.false_eq_true, if_false, take, drop, nonempty,
        hasLeadingZero_ofNat, sign, Bool.or_self, Int.ofNat_eq_natCast, Int.natAbs_natCast]
  | negSucc n =>
      have sign : decide (Int.negSucc n < 0) = true := by simp
      change (ofNat (n + 1) ++ rest).takeWhile _ = ofNat (n + 1) at take
      change (ofNat (n + 1) ++ rest).dropWhile _ = rest at drop
      change (ofNat (n + 1)).isEmpty = false at nonempty
      simp only [integerPart?, ofInt, List.cons_append, List.head?_cons, beq_self_eq_true, if_true,
        List.tail_cons, take, drop, nonempty, hasLeadingZero_ofNat, sign, Bool.or_self,
        Bool.false_eq_true, if_false, Int.natAbs_negSucc]

theorem signedValue_ofNat (n : Int) : signedValue (decide (n < 0)) (ofNat n.natAbs) = n := by
  rw [signedValue, digitsValue_ofNat]
  split
  · next negative =>
    have := of_decide_eq_true negative
    omega
  · next positive =>
    have := of_decide_eq_false (Bool.eq_false_iff.mpr positive)
    omega

end SparqlMetrics.Text
