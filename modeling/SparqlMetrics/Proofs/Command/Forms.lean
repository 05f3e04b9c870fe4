import SparqlMetrics.Command.Upload
import SparqlMetrics.Proofs.Text.Byte
import SparqlMetrics.Proofs.Text.Fields

/-!
# Forms are read back

The fields of a form stand between ampersands, and in each of them a name and a value around the first
equals sign. In both a plus sign is a space, and a percent sign with two hexadecimal digits is the byte
that they write. The form of a statement has one field, whose value is read as the statement, whatever
its bytes are. Main statement: `Upload.fields_form`.
-/
namespace SparqlMetrics.Upload

/-- What a byte of a form stands for by itself. -/
def spaced (b : Byte) : Byte := if b == Byte.plus then Byte.space else b

/-- What a name or a value of a form stands for. A percent sign without two digits is one. -/
def decode : Text → Text
  | [] => []
  | [b] => [spaced b]
  | [b, c] => [spaced b, spaced c]
  | b :: high :: low :: rest =>
    if b == Byte.percent && high.isHexDigit && low.isHexDigit then
      (16 * high.hexValue + low.hexValue).toUInt8 :: decode rest
    else spaced b :: decode (high :: low :: rest)

def nameAndValue (field : Text) : Text × Text :=
  (decode (field.takeWhile (· != Byte.equals)),
    decode (field.dropWhile (· != Byte.equals)).tail)

/-- The fields of a form; where nothing stands between ampersands, there is none. -/
def fields (form : Text) : List (Text × Text) :=
  ((Text.split [Byte.ampersand] form).filter (!·.isEmpty)).map nameAndValue

/-- A byte without a meaning of its own in a form: a letter, a digit or one of `-`, `_`, `.`, `~`. -/
def isUnreserved (b : Byte) : Bool :=
  b.isUpper || b.isLower || b.isDigit ||
    [Byte.hyphen, Byte.underscore, Byte.dot, Byte.tilde].contains b

/-- A hexadecimal digit, a letter only as a capital. -/
def isCapitalDigit (b : Byte) : Bool := b.isDigit || (0x41 ≤ b && b ≤ 0x46)

/-- Bytes without a meaning of their own, and percent signs with two digits. -/
inductive IsEscaped : Text → Prop
  | nil : IsEscaped []
  | plain {b : Byte} {s : Text} : isUnreserved b = true → IsEscaped s → IsEscaped (b :: s)
  | escape {high low : Byte} {s : Text} : isCapitalDigit high = true → isCapitalDigit low = true →
      IsEscaped s → IsEscaped (Byte.percent :: high :: low :: s)

variable {b high low : Byte} {s statement : Text}

theorem isUnreserved_of_isCapitalDigit (digit : isCapitalDigit b = true) :
    isUnreserved b = true :=
  Byte.forall_of_digits (P := fun b => isCapitalDigit b = true → isUnreserved b = true)
    (by decide) b digit

theorem isHexDigit_of_isCapitalDigit (digit : isCapitalDigit b = true) : b.isHexDigit = true := by
  rw [Byte.isHexDigit, ← isCapitalDigit, digit, Bool.true_or]

theorem isFormSafe_eq (b : Byte) : isFormSafe b = isUnreserved b :=
  Byte.forall_of_digits (P := fun b => isFormSafe b = isUnreserved b) (by decide) b

theorem capitalDigit_eq : ∀ n < 16,
    isCapitalDigit (capitalDigit n) = true ∧ (capitalDigit n).hexValue = n := by
  decide

/-- A byte is written as itself or as two digits with its value. -/
theorem formByte_cases (b : Byte) : isUnreserved b = true ∧ formByte b = [b] ∨
    ∃ high low, isCapitalDigit high = true ∧ isCapitalDigit low = true ∧
      formByte b = [Byte.percent, high, low] ∧
      (16 * high.hexValue + low.hexValue).toUInt8 = b := by
  rw [formByte, isFormSafe_eq]
  split
  · next unreserved => exact .inl ⟨unreserved, rfl⟩
  · have bound := b.toNat_lt
    obtain ⟨high, highValue⟩ := capitalDigit_eq (b.toNat / 16) (by omega)
    obtain ⟨low, lowValue⟩ := capitalDigit_eq (b.toNat % 16) (by omega)
    refine .inr ⟨_, _, high, low, rfl, ?_⟩
    rw [highValue, lowValue, Nat.div_add_mod]
    exact UInt8.ofNat_toNat

theorem decode_cons (other : (b == Byte.percent) = false) (s : Text) :
    decode (b :: s) = spaced b :: decode s := by
  obtain _ | ⟨c, _ | ⟨d, s⟩⟩ := s
  · rfl
  · rfl
  · rw [decode, other, Bool.false_and, Bool.false_and, if_neg Bool.false_ne_true]

theorem decode_plain (unreserved : isUnreserved b = true) (s : Text) :
    decode (b :: s) = b :: decode s := by
  have meaning : isUnreserved b = true → (b == Byte.percent) = false ∧ spaced b = b :=
    Byte.forall_of_digits (P := fun b => isUnreserved b = true →
      (b == Byte.percent) = false ∧ spaced b = b) (by decide) b
  obtain ⟨noEscape, same⟩ := meaning unreserved
  rw [decode_cons noEscape, same]

theorem decode_escape (isHigh : isCapitalDigit high = true) (isLow : isCapitalDigit low = true)
    (s : Text) : decode (Byte.percent :: high :: low :: s) =
      (16 * high.hexValue + low.hexValue).toUInt8 :: decode s := by
  have digits : (Byte.percent == Byte.percent && high.isHexDigit && low.isHexDigit) = true := by
    rw [isHexDigit_of_isCapitalDigit isHigh, isHexDigit_of_isCapitalDigit isLow]
    rfl
  rw [decode, if_pos digits]

/-- What is written for bytes is read as these bytes. -/
theorem decode_flatMap (s : Text) : decode (s.flatMap formByte) = s := by
  induction s with
  | nil => rfl
  | cons b s ih =>
      rw [List.flatMap_cons]
      obtain ⟨unreserved, same⟩ | ⟨high, low, isHigh, isLow, same, value⟩ := formByte_cases b
      · rw [same, List.singleton_append, decode_plain unreserved, ih]
      · rw [same, List.cons_append, List.cons_append, List.singleton_append,
          decode_escape isHigh isLow, value, ih]

theorem isEscaped_flatMap (s : Text) : IsEscaped (s.flatMap formByte) := by
  induction s with
  | nil => exact .nil
  | cons b s ih =>
      rw [List.flatMap_cons]
      obtain ⟨unreserved, same⟩ | ⟨high, low, isHigh, isLow, same, _⟩ := formByte_cases b
      · rw [same]
        exact .plain unreserved ih
      · rw [same]
        exact .escape isHigh isLow ih

theorem IsEscaped.mem (h : IsEscaped s) : b ∈ s → isUnreserved b = true ∨ b = Byte.percent := by
  induction h with
  | nil => exact nofun
  | plain unreserved _ ih =>
      intro member
      rcases List.mem_cons.mp member with rfl | member
      · exact .inl unreserved
      · exact ih member
  | escape isHigh isLow _ ih =>
      simp only [List.mem_cons]
      rintro (rfl | rfl | rfl | member)
      · exact .inr rfl
      · exact .inl (isUnreserved_of_isCapitalDigit isHigh)
      · exact .inl (isUnreserved_of_isCapitalDigit isLow)
      · exact ih member

/-- An ampersand of a statement is no ampersand of its form. -/
theorem ampersand_not_mem_form (statement : Text) : Byte.ampersand ∉ form statement := by
  have name : Byte.ampersand ∉ utf8 "update=" := by decide
  rw [form, List.mem_append, not_or]
  refine ⟨name, fun member => ?_⟩
  exact absurd ((isEscaped_flatMap statement).mem member) (by decide)

theorem nameAndValue_form (statement : Text) :
    nameAndValue (form statement) = (utf8 "update", statement) :=
  Prod.ext rfl (decode_flatMap statement)

/-- The form of a statement is the name of its field and an escaped value, which stands for the
statement. It is read as that one field, so different statements have different forms. -/
theorem fields_form (statement : Text) :
    (∃ value, form statement = utf8 "update=" ++ value ∧ IsEscaped value ∧
      decode value = statement) ∧
    fields (form statement) = [(utf8 "update", statement)] ∧
    ∀ other, form other = form statement → other = statement := by
  have read : ∀ s, fields (form s) = [(utf8 "update", s)] := by
    intro s
    rw [fields, Text.split_of_free (ampersand_not_mem_form s), ← nameAndValue_form]
    rfl
  refine ⟨⟨_, rfl, isEscaped_flatMap statement, decode_flatMap statement⟩, read statement, ?_⟩
  intro other same
  have both := (read other).symm.trans (same ▸ read statement)
  exact congrArg Prod.snd (List.cons.inj both).1

/-- The reader knows what a form does not write: a plus sign, digits in small letters, a percent sign
without digits and a second field. -/
example : fields (utf8 "a+%2b%=1&&=%zz") = [(utf8 "a +%", utf8 "1"), ([], utf8 "%zz")] := by
  decide

end SparqlMetrics.Upload
