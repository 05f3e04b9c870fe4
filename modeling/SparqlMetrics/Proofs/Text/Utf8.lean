import SparqlMetrics.Proofs.Text.Byte
import SparqlMetrics.Proofs.Text.Numeral
import SparqlMetrics.Proofs.Tree.Strings
import SparqlMetrics.Text.Encoding

/-!
# Valid UTF-8

A text is valid when it is the bytes of some characters. A character is one ASCII byte or at least
two bytes outside ASCII, so a valid text may be cut on either side of an ASCII byte and nowhere else
does a reader cut. What reading does with texts keeps them valid: joining, capitals, decimals, the
resolution of references. Main statements: `Text.IsUtf8.before`, `Text.isUtf8_ofCodePoint_iff`,
`TextClass.utf8`.
-/
namespace SparqlMetrics.Text

/-- Whether a text is the bytes of some characters. -/
def IsUtf8 (s : Text) : Prop := ∃ text : String, s = utf8 text

variable {p s t : Text} {b : Byte}

theorem utf8_eq (text : String) : utf8 text = text.toList.flatMap String.utf8EncodeChar := by
  rw [utf8, ← String.utf8Encode_toList, List.utf8Encode, List.data_toByteArray]

theorem isUtf8_iff : s.IsUtf8 ↔ ∃ chars : List Char, s = chars.flatMap String.utf8EncodeChar := by
  constructor
  · rintro ⟨text, rfl⟩
    exact ⟨text.toList, utf8_eq text⟩
  · rintro ⟨chars, rfl⟩
    exact ⟨String.ofList chars, by rw [utf8_eq, String.toList_ofList]⟩

/-! ## Single characters -/

theorem isHigh_eq (b : Byte) : b.isHigh = decide (128 ≤ b.toNat) := rfl

theorem isHigh_ofNat {n : Nat} (h : n < 256) : Byte.isHigh (UInt8.ofNat n) = decide (128 ≤ n) := by
  rw [isHigh_eq, UInt8.toNat_ofNat', Nat.mod_eq_of_lt h]

/-- The bytes of a character are one in ASCII or several outside it. -/
theorem utf8EncodeChar_cases (c : Char) :
    (∃ b : Byte, b.isHigh = false ∧ String.utf8EncodeChar c = [b]) ∨
      2 ≤ (String.utf8EncodeChar c).length ∧
        ∀ b ∈ String.utf8EncodeChar c, Byte.isHigh b = true := by
  have high : ∀ {n : Nat}, 128 ≤ n → n < 256 → Byte.isHigh (UInt8.ofNat n) = true :=
    fun low up => by rw [isHigh_ofNat up, decide_eq_true low]
  have tail : ∀ n : Nat, Byte.isHigh (UInt8.ofNat (n % 64 + 128)) = true :=
    fun n => high (by omega) (by omega)
  unfold String.utf8EncodeChar
  simp only
  split
  · next small =>
    refine .inl ⟨UInt8.ofNat c.val.toNat, ?_, rfl⟩
    rw [isHigh_ofNat (by omega), decide_eq_false (by omega)]
  refine .inr ?_
  split
  · refine ⟨Nat.le_refl 2, ?_⟩
    simp only [List.forall_mem_cons]
    exact ⟨high (n := c.val.toNat / 64 % 32 + 192) (by omega) (by omega), tail _, nofun⟩
  split
  · refine ⟨Nat.le_succ 2, ?_⟩
    simp only [List.forall_mem_cons]
    exact ⟨high (n := c.val.toNat / 4096 % 16 + 224) (by omega) (by omega), tail _, tail _, nofun⟩
  · refine ⟨by simp, ?_⟩
    simp only [List.forall_mem_cons]
    exact ⟨high (n := c.val.toNat / 262144 % 8 + 240) (by omega) (by omega), tail _, tail _,
      tail _, nofun⟩

theorem isUtf8_char (c : Char) : IsUtf8 (String.utf8EncodeChar c) :=
  isUtf8_iff.mpr ⟨[c], by simp⟩

theorem utf8EncodeChar_ascii (h : b.isHigh = false) :
    ∃ c : Char, String.utf8EncodeChar c = [b] := by
  rw [isHigh_eq, decide_eq_false_iff_not] at h
  refine ⟨Char.ofNatAux b.toNat (.inl (by omega)), ?_⟩
  have value : (Char.ofNatAux b.toNat (.inl (by omega))).val.toNat = b.toNat := rfl
  rw [String.utf8EncodeChar, value, if_pos (by omega), UInt8.ofNat_toNat]

theorem toUInt8_eq {m n : Nat} (h : m = n) : m.toUInt8 = UInt8.ofNat n := h ▸ rfl

theorem continuation_eq (n shift : Nat) :
    continuation n shift = UInt8.ofNat (n >>> shift % 64 + 128) :=
  toUInt8_eq (by omega)

/-- The bytes of a number of three digits in base 64, the first one in four bits. -/
theorem ofCodePoint_three {n : Nat} (low : 0x800 ≤ n) (high : n < 0x10000) :
    ofCodePoint n = [UInt8.ofNat (n / 4096 % 16 + 224), UInt8.ofNat (n / 64 % 64 + 128),
      UInt8.ofNat (n % 64 + 128)] := by
  rw [ofCodePoint, if_neg (by omega), if_neg (by omega), if_pos high, continuation_eq,
    continuation_eq, Nat.shiftRight_eq_div_pow,
    toUInt8_eq (n := n / 4096 % 16 + 224) (by omega)]
  simp [Nat.shiftRight_eq_div_pow]

/-- The bytes of a scalar value are those of its character. -/
theorem ofCodePoint_eq {n : Nat} (scalar : n.isValidChar) :
    ofCodePoint n = String.utf8EncodeChar (Char.ofNatAux n scalar) := by
  have value : (Char.ofNatAux n scalar).val.toNat = n := rfl
  have lead : ∀ x : Fin 8, 0xF0 ||| x.val = x.val % 8 + 240 := by decide
  rw [String.utf8EncodeChar, value]
  rcases Nat.lt_or_ge n 0x80 with one | more
  · rw [ofCodePoint, if_pos one, if_pos (by omega)]
  rcases Nat.lt_or_ge n 0x800 with two | more
  · rw [ofCodePoint, if_neg (by omega), if_pos two, if_neg (by omega), if_pos (by omega),
      continuation_eq, Nat.shiftRight_eq_div_pow, toUInt8_eq (n := n / 64 % 32 + 192) (by omega)]
    simp
  rcases Nat.lt_or_ge n 0x10000 with three | more
  · rw [ofCodePoint_three more three, if_neg (by omega), if_neg (by omega), if_pos (by omega)]
  · rw [ofCodePoint, if_neg (by omega), if_neg (by omega), if_neg (by omega), if_neg (by omega),
      if_neg (by omega), if_neg (by omega), continuation_eq, continuation_eq, continuation_eq,
      Nat.shiftRight_eq_div_pow,
      toUInt8_eq (n := n / 262144 % 8 + 240) (lead ⟨n / 262144, by omega⟩)]
    simp [Nat.shiftRight_eq_div_pow]

theorem ofNat_inj {m n : Nat} (hm : m < 256) (hn : n < 256) (h : UInt8.ofNat m = UInt8.ofNat n) :
    m = n := by
  have same := congrArg UInt8.toNat h
  rwa [UInt8.toNat_ofNat', UInt8.toNat_ofNat', Nat.mod_eq_of_lt hm, Nat.mod_eq_of_lt hn] at same

/-- The bytes of a surrogate are no valid text. -/
theorem not_isUtf8_surrogate {n : Nat} (low : 0xD800 ≤ n) (high : n ≤ 0xDFFF) :
    ¬ IsUtf8 (ofCodePoint n) := by
  rw [ofCodePoint_three (by omega) (by omega), isUtf8_iff]
  rintro ⟨chars, same⟩
  cases chars with
  | nil => cases same
  | cons c rest =>
      have valid := c.valid
      rw [List.flatMap_cons, String.utf8EncodeChar] at same
      -- the first byte is that of a character of three bytes
      split at same
      · have first := ofNat_inj (by omega) (by omega) (List.cons.inj same).1
        omega
      split at same
      · have first := ofNat_inj (by omega) (by omega) (List.cons.inj same).1
        omega
      split at same
      · obtain ⟨first, same⟩ := List.cons.inj same
        obtain ⟨second, same⟩ := List.cons.inj same
        have third := ofNat_inj (by omega) (by omega) (List.cons.inj same).1
        have first := ofNat_inj (by omega) (by omega) first
        have second := ofNat_inj (by omega) (by omega) second
        have equal : n = c.val.toNat := by omega
        rcases valid with below | above <;> omega
      · have first := ofNat_inj (by omega) (by omega) (List.cons.inj same).1
        omega

theorem isUtf8_ofCodePoint {n : Nat} (scalar : n.isValidChar) : IsUtf8 (ofCodePoint n) :=
  ofCodePoint_eq scalar ▸ isUtf8_char _

/-- The bytes of a number up to 0x10FFFF are valid when it is a scalar value, and only then. -/
theorem isUtf8_ofCodePoint_iff {n : Nat} (bound : n < 0x110000) :
    IsUtf8 (ofCodePoint n) ↔ n.isValidChar := by
  refine ⟨fun h => Decidable.byContradiction fun other => ?_, isUtf8_ofCodePoint⟩
  rw [Nat.isValidChar] at other
  exact not_isUtf8_surrogate (by omega) (by omega) h

/-! ## Joining and cutting -/

theorem isUtf8_nil : IsUtf8 [] := isUtf8_iff.mpr ⟨[], rfl⟩

theorem IsUtf8.append (hs : s.IsUtf8) (ht : t.IsUtf8) : IsUtf8 (s ++ t) := by
  obtain ⟨cs, rfl⟩ := isUtf8_iff.mp hs
  obtain ⟨ds, rfl⟩ := isUtf8_iff.mp ht
  exact isUtf8_iff.mpr ⟨cs ++ ds, by rw [List.flatMap_append]⟩

theorem isUtf8_singleton (h : b.isHigh = false) : IsUtf8 [b] := by
  obtain ⟨c, same⟩ := utf8EncodeChar_ascii h
  exact same ▸ isUtf8_char c

theorem not_isUtf8_singleton (h : b.isHigh = true) : ¬ IsUtf8 [b] := by
  rw [isUtf8_iff]
  rintro ⟨chars, same⟩
  cases chars with
  | nil => cases same
  | cons c rest =>
      rw [List.flatMap_cons] at same
      rcases utf8EncodeChar_cases c with ⟨a, ascii, one⟩ | ⟨several, _⟩
      · rw [one] at same
        rw [(List.cons.inj same).1, ascii] at h
        cases h
      · have length := congrArg List.length same
        rw [List.length_append, List.length_singleton] at length
        omega

theorem IsUtf8.cons (h : b.isHigh = false) (hs : s.IsUtf8) : IsUtf8 (b :: s) :=
  (isUtf8_singleton h).append hs

theorem isUtf8_of_ascii (h : ∀ b ∈ s, Byte.isHigh b = false) : IsUtf8 s := by
  induction s with
  | nil => exact isUtf8_nil
  | cons b rest ih =>
      obtain ⟨first, others⟩ := List.forall_mem_cons.mp h
      exact (ih others).cons first

/-- Behind valid bytes of a valid text the rest is valid. -/
theorem IsUtf8.behind (h : IsUtf8 (p ++ s)) (hp : p.IsUtf8) : s.IsUtf8 := by
  obtain ⟨front, rfl⟩ := hp
  obtain ⟨text, same⟩ := h
  have bytes : ∀ text : String, (utf8 text).toByteArray = text.toList.utf8Encode := by
    intro text
    rw [utf8_eq, List.utf8Encode]
  have whole : front.toList.utf8Encode ++ s.toByteArray = text.toList.utf8Encode := by
    rw [← bytes, ← bytes, ← same, List.toByteArray_append]
  obtain ⟨rest, split⟩ := List.isPrefix_of_utf8Encode_append_eq_utf8Encode _ whole
  refine isUtf8_iff.mpr ⟨rest, ?_⟩
  rw [utf8_eq, utf8_eq, ← split, List.flatMap_append] at same
  exact List.append_cancel_left same

/-- In front of an ASCII byte of a valid text the rest is valid. -/
theorem IsUtf8.before (h : IsUtf8 (p ++ b :: s)) (ascii : b.isHigh = false) : p.IsUtf8 := by
  obtain ⟨chars, same⟩ := isUtf8_iff.mp h
  clear h
  induction chars generalizing p with
  | nil => cases p <;> cases same
  | cons c rest ih =>
      rw [List.flatMap_cons] at same
      rcases List.append_eq_append_iff.mp same with ⟨inner, cut, behind⟩ | ⟨inner, cut, behind⟩
      · -- the byte belongs to the first character unless that character is in front of it
        cases inner with
        | nil =>
            rw [List.append_nil] at cut
            exact cut ▸ isUtf8_char c
        | cons a inner =>
            obtain ⟨rfl, _⟩ := List.cons.inj behind
            rcases utf8EncodeChar_cases c with ⟨a, _, one⟩ | ⟨_, high⟩
            · rw [one] at cut
              rcases List.append_eq_singleton_iff.mp cut.symm with ⟨rfl, _⟩ | ⟨_, noByte⟩
              · exact isUtf8_nil
              · cases noByte
            · have := high b (cut ▸ by simp)
              rw [ascii] at this
              cases this
      · rw [cut]
        exact (isUtf8_char c).append (ih behind.symm)

theorem IsUtf8.from (h : IsUtf8 (p ++ b :: s)) (ascii : b.isHigh = false) : IsUtf8 (b :: s) :=
  h.behind (h.before ascii)

theorem IsUtf8.tail (h : IsUtf8 (b :: s)) (ascii : b.isHigh = false) : s.IsUtf8 :=
  IsUtf8.behind (p := [b]) h (isUtf8_singleton ascii)

/-! ## Runs

A class of bytes either holds all bytes outside ASCII or none of them; then no character is cut
where a run of it ends. -/

variable {q : Byte → Bool}

/-- What stands behind a run is empty or opens with a byte outside the class. -/
theorem dropWhile_cases (q : Byte → Bool) (s : Text) :
    s.dropWhile q = [] ∨ ∃ b rest, s.dropWhile q = b :: rest ∧ q b = false := by
  cases tail : s.dropWhile q with
  | nil => exact .inl rfl
  | cons b rest =>
      have head := List.head?_dropWhile_not q s
      rw [tail] at head
      exact .inr ⟨b, rest, rfl, by simpa using head⟩

/-- A class inside ASCII is checked on all bytes. -/
theorem ascii_of (h : ∀ i j : Fin 16, q (UInt8.ofNat (16 * i + j)) = true →
      Byte.isHigh (UInt8.ofNat (16 * i + j)) = false) (b : Byte) : q b = true → b.isHigh = false :=
  Byte.forall_of_digits (P := fun b => q b = true → b.isHigh = false) h b

theorem isHigh_eq_false (high : ∀ b : Byte, b.isHigh = true → q b = true) (h : q b = false) :
    b.isHigh = false := by
  cases wide : b.isHigh with
  | false => rfl
  | true => rw [high b wide] at h; cases h

/-- A run of a class with all bytes outside ASCII. -/
theorem IsUtf8.takeWhile (h : s.IsUtf8) (high : ∀ b : Byte, b.isHigh = true → q b = true) :
    IsUtf8 (s.takeWhile q) := by
  have cut := List.takeWhile_append_dropWhile (p := q) (l := s)
  rcases dropWhile_cases q s with through | ⟨b, rest, left, stop⟩
  · rw [through, List.append_nil] at cut
    rwa [cut]
  · rw [left] at cut
    exact IsUtf8.before (cut ▸ h) (isHigh_eq_false high stop)

theorem IsUtf8.dropWhile (h : s.IsUtf8) (high : ∀ b : Byte, b.isHigh = true → q b = true) :
    IsUtf8 (s.dropWhile q) :=
  IsUtf8.behind (by rwa [List.takeWhile_append_dropWhile]) (h.takeWhile high)

/-- A run of a class inside ASCII. -/
theorem isUtf8_takeWhile (ascii : ∀ b : Byte, q b = true → b.isHigh = false) (s : Text) :
    IsUtf8 (s.takeWhile q) :=
  isUtf8_of_ascii fun b member => ascii b (List.all_eq_true.mp List.all_takeWhile b member)

theorem IsUtf8.dropWhile_ascii (h : s.IsUtf8)
    (ascii : ∀ b : Byte, q b = true → b.isHigh = false) : IsUtf8 (s.dropWhile q) :=
  IsUtf8.behind (by rwa [List.takeWhile_append_dropWhile]) (isUtf8_takeWhile ascii s)

/-! ## What reading does with texts -/

theorem isHigh_toUpper (b : Byte) : b.toUpper.isHigh = b.isHigh :=
  Byte.forall_of_digits (P := fun b => b.toUpper.isHigh = b.isHigh) (by decide) b

theorem toUpper_of_isHigh (b : Byte) : b.isHigh = true → b.toUpper = b :=
  Byte.forall_of_digits (P := fun b => b.isHigh = true → b.toUpper = b) (by decide) b

theorem IsUtf8.toUpper (h : s.IsUtf8) : IsUtf8 s.toUpper := by
  obtain ⟨chars, rfl⟩ := isUtf8_iff.mp h
  clear h
  induction chars with
  | nil => exact isUtf8_nil
  | cons c rest ih =>
      rw [List.flatMap_cons, Text.toUpper, List.map_append]
      refine IsUtf8.append ?_ ih
      rcases utf8EncodeChar_cases c with ⟨b, ascii, one⟩ | ⟨_, high⟩
      · rw [one]
        exact isUtf8_singleton ((isHigh_toUpper b).trans ascii)
      · rw [List.map_congr_left fun b member => toUpper_of_isHigh b (high b member), List.map_id']
        exact isUtf8_char c

theorem isHigh_of_isDigit : ∀ b : Byte, b.isDigit = true → b.isHigh = false :=
  ascii_of (by decide)

theorem isUtf8_ofNat (n : Nat) : IsUtf8 (ofNat n) :=
  isUtf8_of_ascii fun b member => isHigh_of_isDigit b ((isDigits_ofNat n).2 b member)

theorem IsUtf8.dropColon (h : s.IsUtf8) (colon : s.getLast? = some Byte.colon) :
    IsUtf8 s.dropLast := by
  obtain ⟨front, rfl⟩ := List.getLast?_eq_some_iff.mp colon
  rw [List.dropLast_concat]
  exact h.before (by decide)

end SparqlMetrics.Text

/-! ## References -/

namespace SparqlMetrics.Iri

open Text

variable {base reference : Text}

/-- A class that leaves out some ASCII bytes only. -/
theorem holds_high {b c : Byte} (ascii : c.isHigh = false) (h : b.isHigh = true) :
    (b != c) = true := by
  rw [bne_iff_ne]
  rintro rfl
  rw [ascii] at h
  cases h

theorem isUtf8_withoutFragment (h : base.IsUtf8) : (withoutFragment base).IsUtf8 :=
  h.takeWhile fun _ => holds_high (by decide)

theorem isUtf8_withoutQuery (h : base.IsUtf8) : (withoutQuery base).IsUtf8 :=
  (isUtf8_withoutFragment h).takeWhile fun _ => holds_high (by decide)

theorem isUtf8_scheme (h : base.IsUtf8) : (scheme base).IsUtf8 :=
  h.takeWhile fun _ => holds_high (by decide)

theorem isUtf8_schemeSpecific (h : base.IsUtf8) : (schemeSpecific base).IsUtf8 := by
  have tail := h.dropWhile fun _ => holds_high (c := Byte.colon) (by decide)
  rw [schemeSpecific]
  rcases dropWhile_cases (· != Byte.colon) base with through | ⟨b, rest, left, stop⟩
  · rw [through]
    exact isUtf8_nil
  · rw [left] at tail ⊢
    rw [bne_eq_false_iff_eq] at stop
    exact tail.tail (by rw [stop]; decide)

theorem endsAuthority_high (b : Byte) : b.isHigh = true → (!endsAuthority b) = true :=
  Byte.forall_of_digits (P := fun b => b.isHigh = true → (!endsAuthority b) = true)
    (by decide) b

theorem isUtf8_authority (h : base.IsUtf8) : (authority base).IsUtf8 := by
  have specific := isUtf8_schemeSpecific h
  unfold authority
  split
  · next a b rest same =>
    split
    · next slashes =>
      rw [Bool.and_eq_true, beq_iff_eq, beq_iff_eq] at slashes
      rw [same, slashes.1, slashes.2] at specific
      have inner := (specific.tail (by decide)).tail (by decide)
      rw [slashes.1, slashes.2]
      exact ((inner.takeWhile endsAuthority_high).cons (by decide)).cons (by decide)
    · exact isUtf8_nil
  · exact isUtf8_nil

theorem isUtf8_root (h : base.IsUtf8) : (root base).IsUtf8 :=
  (isUtf8_scheme h).append ((isUtf8_authority h).cons (by decide))

theorem isUtf8_directory {path : Text} (h : path.IsUtf8) : (directory path).IsUtf8 := by
  have cut := List.takeWhile_append_dropWhile (p := (· != Byte.slash)) (l := path.reverse)
  rw [directory]
  rcases dropWhile_cases (· != Byte.slash) path.reverse with through | ⟨b, rest, left, stop⟩
  · rw [through]
    exact isUtf8_nil
  · rw [bne_eq_false_iff_eq] at stop
    rw [left] at cut ⊢
    rw [← List.reverse_reverse path, ← cut, List.reverse_append, List.reverse_cons,
      List.append_assoc, List.singleton_append] at h
    rw [List.reverse_cons]
    have ascii : b.isHigh = false := by rw [stop]; decide
    exact (h.before ascii).append (isUtf8_singleton ascii)

theorem authority_isPrefix (base : Text) : authority base <+: schemeSpecific base := by
  unfold authority
  split
  · next same =>
    rw [same]
    split
    · exact (List.prefix_cons_inj _).mpr ((List.prefix_cons_inj _).mpr (List.takeWhile_prefix _))
    · exact List.nil_prefix
  · exact List.nil_prefix

/-- The root of an IRI opens it; without a scheme there is nothing behind the root. -/
theorem root_isPrefix (base : Text) :
    root base <+: base ∨ base.length ≤ (root base).length := by
  have cut := List.takeWhile_append_dropWhile (p := (· != Byte.colon)) (l := base)
  have authority := authority_isPrefix base
  rw [root]
  rcases dropWhile_cases (· != Byte.colon) base with through | ⟨b, rest, left, stop⟩
  · rw [through, List.append_nil] at cut
    refine .inr ?_
    rw [List.length_append, scheme, cut]
    exact Nat.le_add_right _ _
  · rw [bne_eq_false_iff_eq] at stop
    rw [schemeSpecific, left, List.tail_cons] at authority
    obtain ⟨behind, same⟩ := authority
    refine .inl ⟨behind, ?_⟩
    rw [List.append_assoc, List.cons_append, same, ← stop, ← left]
    exact cut

theorem isUtf8_merge (hb : base.IsUtf8) (hr : reference.IsUtf8) : (merge base reference).IsUtf8 := by
  have root := isUtf8_root hb
  have path : IsUtf8 ((withoutQuery base).drop (Iri.root base).length) := by
    have front : withoutQuery base <+: base :=
      (List.takeWhile_prefix _).trans (List.takeWhile_prefix _)
    have short' : ∀ {n : Nat}, (withoutQuery base).length ≤ n →
        IsUtf8 ((withoutQuery base).drop n) :=
      fun short => List.drop_eq_nil_of_le short ▸ isUtf8_nil
    rcases root_isPrefix base with opens | short
    · rcases List.prefix_or_prefix_of_prefix opens front with ⟨rest, same⟩ | inside
      · have whole := isUtf8_withoutQuery hb
        rw [← same] at whole ⊢
        rw [List.drop_left]
        exact whole.behind root
      · exact short' inside.length_le
    · exact short' (Nat.le_trans front.length_le short)
  rw [merge]
  split
  · exact root.append (hr.cons (by decide))
  · exact (root.append (isUtf8_directory path)).append hr

theorem isUtf8_resolve (hb : base.IsUtf8) (hr : reference.IsUtf8) :
    (resolve base reference).IsUtf8 := by
  unfold resolve
  split
  · exact isUtf8_withoutFragment hb
  split
  · exact (isUtf8_withoutFragment hb).append hr
  split
  · split
    · exact (isUtf8_scheme hb).append (hr.cons (by decide))
    · exact (isUtf8_root hb).append hr
  split
  · exact (isUtf8_withoutQuery hb).append hr
  · exact isUtf8_merge hb hr

end SparqlMetrics.Iri

namespace SparqlMetrics

open Text

def TextClass.utf8 : TextClass where
  Holds := IsUtf8
  constant s := ⟨s, rfl⟩
  append := IsUtf8.append
  toUpper := IsUtf8.toUpper
  ofNat := isUtf8_ofNat
  resolve := Iri.isUtf8_resolve
  dropColon := IsUtf8.dropColon

end SparqlMetrics
