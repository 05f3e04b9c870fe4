import Mathlib.Data.List.Forall2
import SparqlMetrics.Json.Standard
import SparqlMetrics.Proofs.Json.Reader

/-!
# Written JSON is read back

A byte of a string, or the escape for it, is read back as that byte, and a numeral as its number. The
induction on a value goes along with the writer: its items are read one by one, whatever blanks the
indentation puts between them. A text is nested less deeply than it is long, so its length bounds the
reader. Main statements: `Json.reads_write`, `Json.isJson_of_dump?`, `Json.dump?_eq_none_iff`.
-/
namespace SparqlMetrics

namespace Json

variable {b : Byte} {s t rest name : Text} {x : Json} {depth level : Nat} {indent : Option Nat}

/-! ## Strings -/

/-- A backslash and what an escape stands for behind it. -/
theorem spells_escape {tail text : Text} (h : ∀ rest, escape? (tail ++ rest) = some (text, rest)) :
    Spells (Byte.backslash :: tail) text where
  nonempty := List.cons_ne_nil _ _
  read bound rest := by
    have other : Byte.backslash ≠ Byte.quote := by decide
    simp only [List.cons_append, characters, beq_iff_eq, other, if_false, if_true, h,
      Option.bind_eq_bind, Option.bind_some]
    cases characters bound rest <;> rfl

/-- A byte that stands for itself. -/
theorem spells_byte (quote : b ≠ Byte.quote) (backslash : b ≠ Byte.backslash)
    (control : ¬ b < Byte.space) : Spells [b] [b] where
  nonempty := List.cons_ne_nil _ _
  read bound rest := by
    simp only [List.singleton_append, characters, beq_iff_eq, quote, backslash, control, if_false,
      Option.bind_eq_bind, Option.bind_some]
    cases characters bound rest <;> rfl

/-- The escape of a byte behind its `u`: two zeros and its own two digits. -/
def codeDigits (b : Byte) : Text :=
  [0x30, 0x30, Text.hexDigit (b.toNat / 16), Text.hexDigit (b.toNat % 16)]

theorem value_codeDigits (b : Byte) : (codeDigits b).all Byte.isHexDigit = true ∧
    (codeDigits b).foldl (fun value b => 16 * value + b.hexValue) 0 = b.toNat :=
  Byte.forall_of_digits (P := fun b => (codeDigits b).all Byte.isHexDigit = true ∧
    (codeDigits b).foldl (fun value b => 16 * value + b.hexValue) 0 = b.toNat)
    (by decide) b

theorem codeUnit?_codeDigits (b : Byte) (rest : Text) :
    codeUnit? (codeDigits b ++ rest) = some (b.toNat, rest) := by
  obtain ⟨digits, value⟩ := value_codeDigits b
  have take : (codeDigits b ++ rest).take 4 = codeDigits b := rfl
  have drop : (codeDigits b ++ rest).drop 4 = rest := rfl
  rw [codeUnit?, take, drop, digits, value]
  rfl

/-- The digits of a byte in ASCII are read as that byte. -/
theorem unicode?_codeDigits (ascii : b.toNat < 0x80) (rest : Text) :
    unicode? (codeDigits b ++ rest) = some ([b], rest) := by
  have high : ¬ (0xD800 ≤ b.toNat ∧ b.toNat < 0xDC00) := by omega
  have low : ¬ (0xDC00 ≤ b.toNat ∧ b.toNat < 0xE000) := by omega
  simp [unicode?, codeUnit?_codeDigits, high, low, Text.ofCodePoint, ascii]

theorem spells_escaped (b : Byte) : Spells (escaped b) [b] := by
  unfold escaped
  split
  · next mark =>
    rcases (Bool.or_eq_true _ _).mp mark with mark | mark <;> obtain rfl := eq_of_beq mark <;>
      exact spells_escape fun rest => rfl
  split
  · next same => exact eq_of_beq same ▸ spells_escape fun rest => rfl
  split
  · next same => exact eq_of_beq same ▸ spells_escape fun rest => rfl
  split
  · next same => exact eq_of_beq same ▸ spells_escape fun rest => rfl
  split
  · next same => exact eq_of_beq same ▸ spells_escape fun rest => rfl
  split
  · next same => exact eq_of_beq same ▸ spells_escape fun rest => rfl
  next mark _ _ _ _ _ =>
  split
  · next control =>
    have bound : b.toNat < 0x20 := UInt8.lt_iff_toNat_lt.mp control
    exact @spells_escape (0x75 :: codeDigits b) _ (unicode?_codeDigits (by omega))
  · next control =>
    simp only [Bool.or_eq_true, beq_iff_eq, not_or] at mark
    exact spells_byte mark.1 mark.2 control

/-- A written string behind the quote that opens it. -/
theorem string?_escaped (s rest : Text) :
    string? (s.flatMap escaped ++ [Byte.quote] ++ rest) = some (s, rest) := by
  rw [List.append_assoc]
  exact string?_flatMap spells_escaped s rest

/-! ## Bytes of a string -/

theorem ascii_escaped (b : Byte) (ascii : b.isHigh = false) :
    ∀ c ∈ escaped b, Byte.isHigh c = false := by
  have all := Byte.forall_of_digits
    (P := fun b => b.isHigh = false → (escaped b).all (!Byte.isHigh ·) = true)
    (by decide) b ascii
  simpa using all

theorem escaped_of_isHigh (b : Byte) : b.isHigh = true → escaped b = [b] :=
  Byte.forall_of_digits (P := fun b => b.isHigh = true → escaped b = [b]) (by decide) b

theorem isUtf8_flatMap_escaped (valid : s.IsUtf8) : Text.IsUtf8 (s.flatMap escaped) := by
  obtain ⟨chars, rfl⟩ := Text.isUtf8_iff.mp valid
  clear valid
  induction chars with
  | nil => exact Text.isUtf8_nil
  | cons c chars ih =>
      rw [List.flatMap_cons, List.flatMap_append]
      refine Text.IsUtf8.append ?_ ih
      rcases Text.utf8EncodeChar_cases c with ⟨b, ascii, one⟩ | ⟨_, high⟩
      · rw [one, List.flatMap_singleton]
        exact Text.isUtf8_of_ascii (ascii_escaped b ascii)
      · have same : (String.utf8EncodeChar c).flatMap escaped = String.utf8EncodeChar c := by
          rw [List.flatMap_congr fun b member => escaped_of_isHigh b (high b member)]
          exact List.flatMap_singleton' _
        rw [same]
        exact Text.isUtf8_char c

/-! ## Numerals -/

theorem head_ofNat_isDigit (n : Nat) (s : Text) :
    ∃ b, b.isDigit = true ∧ (Text.ofNat n ++ s).head? = some b := by
  obtain ⟨nonempty, digits⟩ := Text.isDigits_ofNat n
  obtain ⟨b, tail, cut⟩ := List.exists_cons_of_ne_nil nonempty
  exact ⟨b, digits b (cut ▸ List.mem_cons_self), by rw [cut]; rfl⟩

/-- The sign of an exponent is cut from its digits. -/
theorem exponentSign_ofInt (n : Int) (s : Text) :
    Lexeme.exponentSign (Text.ofInt n ++ s) =
      (if n < 0 then [Byte.hyphen] else [], Text.ofNat n.natAbs ++ s) := by
  cases n with
  | ofNat n =>
      obtain ⟨b, digit, first⟩ := head_ofNat_isDigit n s
      have plus : b ≠ Byte.plus := by rintro rfl; exact absurd digit (by decide)
      have hyphen : b ≠ Byte.hyphen := by rintro rfl; exact absurd digit (by decide)
      have positive : ¬ (Int.ofNat n < 0) := by simp
      have whole : Text.ofInt (Int.ofNat n) = Text.ofNat n := rfl
      rw [whole, Lexeme.exponentSign, first, if_neg positive]
      simp [plus, hyphen]
  | negSucc n => simp [Lexeme.exponentSign, Text.ofInt]

theorem exponent?_ofInt (n : Int) (ends : Text.EndsDigits rest) :
    Lexeme.exponent? (0x65 :: Text.ofInt n ++ rest) = some (0x65 :: Text.ofInt n, rest) := by
  have digits := Text.isDigits_ofNat n.natAbs
  have nonempty : (Text.ofNat n.natAbs).isEmpty = false := List.isEmpty_eq_false_iff.mpr digits.1
  obtain ⟨take, drop⟩ := Text.takeWhile_digits digits ends
  have whole : (if n < 0 then [Byte.hyphen] else []) ++ Text.ofNat n.natAbs = Text.ofInt n := by
    cases n <;> simp [Text.ofInt]
  simp [Lexeme.exponent?, exponentSign_ofInt, take, drop, nonempty, whole]

theorem exponentValue_ofInt (n : Int) : exponentValue (0x65 :: Text.ofInt n) = n := by
  have cut := exponentSign_ofInt n []
  rw [List.append_nil, List.append_nil] at cut
  have sign : ((if n < 0 then [Byte.hyphen] else []) == [Byte.hyphen]) = decide (n < 0) := by
    by_cases negative : n < 0 <;> simp [negative]
  rw [exponentValue, List.drop_one, List.tail_cons, cut]
  simpa [sign] using Text.signedValue_ofNat n

theorem reads_numeral (mantissa exponent : Int) :
    Reads number? (numeral mantissa exponent) (number mantissa exponent) := by
  intro rest ends
  by_cases whole : exponent = 0
  · subst whole
    rw [numeral, if_pos rfl, List.append_nil]
    exact reads_ofInt mantissa rest ends
  have digits : Text.EndsDigits (0x65 :: Text.ofInt exponent ++ rest) := by
    rintro _ ⟨⟩
    rfl
  have noFraction : Lexeme.fraction? (0x65 :: Text.ofInt exponent ++ rest) = none := rfl
  rw [numeral, if_neg whole, List.append_assoc, number?, Text.integerPart?_ofInt mantissa digits]
  simp only [Option.bind_eq_bind, Option.bind_some, noFraction, Option.getD_none,
    exponent?_ofInt exponent ends.digits, Option.getD_some, List.drop_nil, List.append_nil,
    List.length_nil, Int.natCast_zero, Int.sub_zero, Text.signedValue_ofNat, exponentValue_ofInt]

/-! ## Items -/

theorem isBlank_lineBreak : ∀ b ∈ lineBreak indent level, isBlank b = true := by
  cases indent with
  | none => nofun
  | some width =>
      intro b member
      rcases List.mem_cons.mp member with rfl | member
      · rfl
      · rw [List.eq_of_mem_replicate member]
        rfl

theorem reads_value_append (blanks : ∀ b ∈ s, isBlank b = true) (h : Reads (value depth) t x) :
    Reads (value depth) (s ++ t) x := by
  intro rest ends
  rw [← h rest ends, List.append_assoc]
  cases depth with
  | zero => rfl
  | succ depth => rw [value, value, skip_append blanks]

theorem reads_label (h : Reads (value depth) t x) :
    Reads (member (value depth)) (lineBreak indent level ++ (label indent name ++ t)) (name, x) := by
  have blanks : ∀ b ∈ if indent.isSome then [Byte.space] else [], isBlank b = true := by
    split <;> simp [isBlank]
  have read := reads_member (string?_escaped name) (reads_value_append blanks h)
  intro rest ends
  rw [← read rest ends, List.append_assoc, member, member, behind?_append isBlank_lineBreak]
  simp [label, quoted]

/-- Items inside brackets, as they are joined. -/
theorem enclosed_eq (opening closing : Byte) (items : List Text) :
    ∃ gap, (∀ b ∈ gap, isBlank b = true) ∧ enclosed opening closing indent level items =
      opening :: Text.join [Byte.comma] (items.map (lineBreak indent (level + 1) ++ ·)) ++
        (gap ++ [closing]) := by
  cases items with
  | nil => exact ⟨[], nofun, rfl⟩
  | cons t items => exact ⟨_, isBlank_lineBreak, rfl⟩

/-- An item is shorter than what encloses it. -/
theorem length_lt_enclosed {opening closing : Byte} {items : List Text} (h : t ∈ items) :
    t.length + 1 < (enclosed opening closing indent level items).length := by
  obtain ⟨gap, -, whole⟩ := @enclosed_eq level indent opening closing items
  have inside : _ ≤ (Text.join [Byte.comma] _).length :=
    Text.length_le_join_of_mem (List.mem_map_of_mem (f := (lineBreak indent (level + 1) ++ ·)) h)
  rw [List.length_append] at inside
  rw [whole]
  simp only [List.length_cons, List.length_append, List.length_nil]
  omega

/-- A byte of ASCII that is no blank and closes nothing. -/
def opensValue (b : Byte) : Bool :=
  !(isBlank b || b.isHigh || b == Byte.rbracket || b == Byte.rbrace)

def Opens (t : Text) : Prop := ∃ b s, t = b :: s ∧ opensValue b = true

theorem Opens.behind? {closing : Byte} (closes : Closes closing) (h : Opens t) (rest : Text) :
    Json.behind? closing (lineBreak indent level ++ t ++ rest) = none := by
  obtain ⟨b, s, rfl, first⟩ := h
  simp only [opensValue, Bool.not_eq_true', Bool.or_eq_false_iff, beq_eq_false_iff_ne] at first
  obtain ⟨⟨⟨blank, -⟩, rbracket⟩, rbrace⟩ := first
  rw [List.append_assoc, behind?_append isBlank_lineBreak, List.cons_append]
  rcases closes with rfl | rfl
  · exact behind?_other blank rbracket
  · exact behind?_other blank rbrace

theorem opens_enclosed {opening closing : Byte} {items : List Text}
    (first : opensValue opening = true) : Opens (enclosed opening closing indent level items) := by
  obtain ⟨gap, -, whole⟩ := @enclosed_eq level indent opening closing items
  exact ⟨opening, _, whole, first⟩

theorem opensValue_of_number (b : Byte) (h : b = Byte.hyphen ∨ b.isDigit = true) :
    opensValue b = true :=
  Byte.forall_of_digits (P := fun b => b = Byte.hyphen ∨ b.isDigit = true → opensValue b = true)
    (by decide) b h

theorem opens_write (x : Json) : Opens (write indent level x) := by
  cases x with
  | null => exact ⟨_, _, rfl, rfl⟩
  | boolean value => cases value <;> exact ⟨_, _, rfl, rfl⟩
  | number mantissa exponent =>
      obtain ⟨b, s, cut, first⟩ :=
        opens_ofInt mantissa (if exponent = 0 then [] else 0x65 :: Text.ofInt exponent)
      exact ⟨b, s, by rw [write, numeral, cut], opensValue_of_number b first⟩
  | string value => exact ⟨_, _, by rw [write]; rfl, rfl⟩
  | array items =>
      rw [write]
      exact opens_enclosed rfl
  | object members =>
      rw [write]
      exact opens_enclosed rfl

/-! ## Values -/

theorem reads_enclosedArray {ts : List Text} {xs : List Json}
    (reads : List.Forall₂ (Reads (value depth)) ts xs) (opens : ∀ t ∈ ts, Opens t) :
    Reads (value (depth + 1)) (enclosed Byte.lbracket Byte.rbracket indent level ts) (array xs) := by
  obtain ⟨gap, blanks, whole⟩ := @enclosed_eq level indent Byte.lbracket Byte.rbracket ts
  rw [whole]
  refine reads_array (List.forall₂_map_left_iff.mpr ?_) ?_ blanks
  · exact reads.imp fun _ _ => reads_value_append isBlank_lineBreak
  · exact List.forall_mem_map.mpr fun t member => (opens t member).behind? (.inl rfl)

theorem reads_enclosedObject {ts : List Text} {members : List (Text × Json)}
    (reads : List.Forall₂ (fun t m => Reads (member (value depth))
      (lineBreak indent (level + 1) ++ t) m) ts members) (opens : ∀ t ∈ ts, Opens t) :
    Reads (value (depth + 1)) (enclosed Byte.lbrace Byte.rbrace indent level ts)
      (object members) := by
  obtain ⟨gap, blanks, whole⟩ := @enclosed_eq level indent Byte.lbrace Byte.rbrace ts
  rw [whole]
  refine reads_object (List.forall₂_map_left_iff.mpr reads) ?_ blanks
  exact List.forall_mem_map.mpr fun t member => (opens t member).behind? (.inr rfl)

theorem opens_writeItems (xs : List Json) : ∀ t ∈ writeItems indent level xs, Opens t := by
  induction xs with
  | nil => nofun
  | cons x xs ih =>
      rw [writeItems]
      exact List.forall_mem_cons.mpr ⟨opens_write x, ih⟩

theorem opens_writeMembers (members : List (Text × Json)) :
    ∀ t ∈ writeMembers indent level members, Opens t := by
  induction members with
  | nil => nofun
  | cons m members ih =>
      rw [writeMembers]
      exact List.forall_mem_cons.mpr ⟨⟨_, _, rfl, rfl⟩, ih⟩

/-- The items of what is no longer than a bound are shorter than the bound before it. -/
theorem exists_succ_of_enclosed {opening closing : Byte} {ts : List Text}
    (bound : (enclosed opening closing indent level ts).length ≤ depth) :
    ∃ d, depth = d + 1 ∧ ∀ t ∈ ts, t.length ≤ d := by
  obtain ⟨gap, -, whole⟩ := @enclosed_eq level indent opening closing ts
  have positive : 0 < (enclosed opening closing indent level ts).length := by
    rw [whole]
    exact Nat.succ_pos _
  refine ⟨depth - 1, by omega, fun t member => ?_⟩
  have shorter := @length_lt_enclosed t level indent opening closing ts member
  omega

mutual

/-- A written value is read back when it is no longer than the bound of its reader. -/
theorem reads_write (level : Nat) : (x : Json) → (depth : Nat) →
    (write indent level x).length ≤ depth → Reads (value (depth + 1)) (write indent level x) x
  | .null, depth, _ => fun rest _ => by rw [write]; rfl
  | .boolean true, depth, _ => fun rest _ => by rw [write]; rfl
  | .boolean false, depth, _ => fun rest _ => by rw [write]; rfl
  | .number mantissa exponent, depth, _ => by
      rw [write]
      exact reads_number (opens_ofInt mantissa _) (reads_numeral mantissa exponent)
  | .string name, depth, _ => by
      rw [write]
      exact reads_string (string?_escaped name)
  | .array items, depth, bound => by
      rw [write] at bound ⊢
      obtain ⟨d, rfl, shorter⟩ := exists_succ_of_enclosed bound
      exact reads_enclosedArray (reads_writeItems (level + 1) items d shorter) (opens_writeItems items)
  | .object members, depth, bound => by
      rw [write] at bound ⊢
      obtain ⟨d, rfl, shorter⟩ := exists_succ_of_enclosed bound
      exact reads_enclosedObject (reads_writeMembers (level + 1) members d shorter)
        (opens_writeMembers members)

theorem reads_writeItems (level : Nat) : (xs : List Json) → (depth : Nat) →
    (∀ t ∈ writeItems indent level xs, t.length ≤ depth) →
      List.Forall₂ (Reads (value (depth + 1))) (writeItems indent level xs) xs
  | [], _, _ => by
      rw [writeItems]
      exact .nil
  | x :: rest, depth, bound => by
      rw [writeItems] at bound ⊢
      obtain ⟨first, others⟩ := List.forall_mem_cons.mp bound
      exact .cons (reads_write level x depth first) (reads_writeItems level rest depth others)

theorem reads_writeMembers (level : Nat) : (members : List (Text × Json)) → (depth : Nat) →
    (∀ t ∈ writeMembers indent level members, t.length ≤ depth) →
      List.Forall₂ (fun t m => Reads (member (value (depth + 1)))
        (lineBreak indent level ++ t) m) (writeMembers indent level members) members
  | [], _, _ => by
      rw [writeMembers]
      exact .nil
  | (name, x) :: rest, depth, bound => by
      rw [writeMembers] at bound ⊢
      obtain ⟨first, others⟩ := List.forall_mem_cons.mp bound
      have inside : (write indent level x).length ≤ depth := by
        rw [List.length_append] at first
        omega
      exact .cons (reads_label (reads_write level x depth inside))
        (reads_writeMembers level rest depth others)

end

theorem read?_write (indent : Option Nat) (x : Json) : read? (write indent 0 x) = some x := by
  have reads := @reads_write indent 0 x (write indent 0 x ++ []).length (by simp)
  have read := read?_append reads nofun
  rwa [List.append_nil] at read

/-! ## UTF-8 -/

theorem isUnicode_iff : isUnicode s = true ↔ s.IsUtf8 := by
  rw [isUnicode, ByteArray.validateUTF8_eq_true_iff, Text.isUtf8_iff]
  constructor
  · rintro ⟨chars, same⟩
    refine ⟨chars, ?_⟩
    have data := congrArg (fun bytes => bytes.data.toList) same
    simpa [List.utf8Encode, List.data_toByteArray] using data
  · rintro ⟨chars, rfl⟩
    exact ⟨chars, by simp [List.utf8Encode, ByteArray.ext_iff, List.data_toByteArray]⟩

theorem isUtf8_quoted (valid : s.IsUtf8) : Text.IsUtf8 (quoted s) :=
  Text.IsUtf8.cons (by decide)
    (Text.IsUtf8.append (isUtf8_flatMap_escaped valid) (Text.isUtf8_singleton (by decide)))

theorem isUtf8_ofInt (n : Int) : (Text.ofInt n).IsUtf8 :=
  Text.isUtf8_of_ascii fun b member => by
    rcases Text.of_mem_ofInt member with rfl | digit
    · rfl
    · exact Text.isHigh_of_isDigit b digit

theorem isUtf8_numeral (mantissa exponent : Int) : (numeral mantissa exponent).IsUtf8 := by
  refine (isUtf8_ofInt mantissa).append ?_
  split
  · exact Text.isUtf8_nil
  · exact Text.IsUtf8.cons (by decide) (isUtf8_ofInt exponent)

theorem isUtf8_of_blanks (h : ∀ b ∈ s, isBlank b = true) : s.IsUtf8 :=
  Text.isUtf8_of_ascii fun b member =>
    Byte.forall_of_digits (P := fun b => isBlank b = true → b.isHigh = false) (by decide) b
      (h b member)

theorem isUtf8_join {separator : Text} {ts : List Text} (marks : separator.IsUtf8)
    (all : ∀ t ∈ ts, t.IsUtf8) : (Text.join separator ts).IsUtf8 := by
  induction ts with
  | nil => exact Text.isUtf8_nil
  | cons t ts ih =>
      obtain ⟨first, others⟩ := List.forall_mem_cons.mp all
      cases ts with
      | nil => rwa [Text.join_singleton]
      | cons next ts =>
          rw [Text.join_cons _ _ (List.cons_ne_nil _ _)]
          exact first.append (marks.append (ih others))

theorem isUtf8_enclosed {opening closing : Byte} {ts : List Text} (opens : opening.isHigh = false)
    (closes : closing.isHigh = false) (all : ∀ t ∈ ts, t.IsUtf8) :
    (enclosed opening closing indent level ts).IsUtf8 := by
  obtain ⟨gap, blanks, whole⟩ := @enclosed_eq level indent opening closing ts
  have items := isUtf8_join (Text.isUtf8_singleton (b := Byte.comma) rfl)
    (List.forall_mem_map.mpr fun t member =>
      (isUtf8_of_blanks (@isBlank_lineBreak (level + 1) indent)).append (all t member))
  rw [whole]
  exact (Text.IsUtf8.cons opens items).append
    ((isUtf8_of_blanks blanks).append (Text.isUtf8_singleton closes))

theorem isUtf8_label (valid : name.IsUtf8) : (label indent name).IsUtf8 := by
  refine (isUtf8_quoted valid).append (Text.IsUtf8.cons (by decide) ?_)
  split
  · exact Text.isUtf8_singleton (by decide)
  · exact Text.isUtf8_nil

mutual

/-- A written value is UTF-8 when its strings are. -/
theorem isUtf8_write (level : Nat) : (x : Json) → (∀ s ∈ x.strings, s.IsUtf8) →
    (write indent level x).IsUtf8
  | .null, _ => by
      rw [write]
      exact ⟨_, rfl⟩
  | .boolean value, _ => by
      rw [write]
      exact ⟨_, rfl⟩
  | .number mantissa exponent, _ => by
      rw [write]
      exact isUtf8_numeral mantissa exponent
  | .string value, valid => by
      rw [write]
      exact isUtf8_quoted (valid value (by simp [strings]))
  | .array items, valid => by
      rw [write]
      rw [strings] at valid
      exact isUtf8_enclosed rfl rfl (isUtf8_writeItems (level + 1) items valid)
  | .object members, valid => by
      rw [write]
      rw [strings] at valid
      exact isUtf8_enclosed rfl rfl (isUtf8_writeMembers (level + 1) members valid)

theorem isUtf8_writeItems (level : Nat) : (xs : List Json) →
    (∀ s ∈ stringsOfItems xs, s.IsUtf8) → ∀ t ∈ writeItems indent level xs, t.IsUtf8
  | [], _ => by
      rw [writeItems]
      nofun
  | x :: rest, valid => by
      rw [stringsOfItems, List.forall_mem_append] at valid
      rw [writeItems]
      exact List.forall_mem_cons.mpr
        ⟨isUtf8_write level x valid.1, isUtf8_writeItems level rest valid.2⟩

theorem isUtf8_writeMembers (level : Nat) : (members : List (Text × Json)) →
    (∀ s ∈ stringsOfMembers members, s.IsUtf8) → ∀ t ∈ writeMembers indent level members, t.IsUtf8
  | [], _ => by
      rw [writeMembers]
      nofun
  | (name, x) :: rest, valid => by
      rw [stringsOfMembers, List.forall_mem_cons, List.forall_mem_append] at valid
      rw [writeMembers]
      exact List.forall_mem_cons.mpr
        ⟨(isUtf8_label valid.1).append (isUtf8_write level x valid.2.1),
          isUtf8_writeMembers level rest valid.2.2⟩

end

/-! ## The standard library -/

/-- A value is refused exactly when one of its strings is not UTF-8. -/
theorem dump?_eq_none_iff : dump? indent x = none ↔ ∃ s ∈ x.strings, ¬ s.IsUtf8 := by
  simp [dump?, ← isUnicode_iff]

/-- What is written is the JSON text of the value. -/
theorem isJson_of_dump? (h : dump? indent x = some t) : IsJson t x := by
  rw [dump?] at h
  split at h
  · next valid =>
    rw [List.all_eq_true] at valid
    rw [← Option.some.inj h]
    exact ⟨isUtf8_write 0 x fun s member => isUnicode_iff.mp (valid s member), read?_write indent x⟩
  · cases h

/-- What is written is read back. -/
theorem parse?_of_dump? (h : dump? indent x = some t) : parse? t = some x := by
  obtain ⟨valid, read⟩ := isJson_of_dump? h
  have unmarked : behindWord? byteOrderMark t = none := by
    rw [dump?] at h
    split at h
    · obtain ⟨b, s, cut, first⟩ := @opens_write 0 indent x
      have mark : b ≠ 0xEF := by
        rintro rfl
        exact absurd first (by decide)
      rw [← Option.some.inj h, cut]
      simp [behindWord?, byteOrderMark, List.isPrefixOf, beq_false_of_ne mark.symm]
    · cases h
  rw [parse?, unmarked, Option.getD_none, if_pos (isUnicode_iff.mpr valid), read]

end Json

end SparqlMetrics
