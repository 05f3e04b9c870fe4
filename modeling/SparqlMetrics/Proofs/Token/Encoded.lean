import SparqlMetrics.Proofs.Text.Utf8
import SparqlMetrics.Proofs.Token.Gaps
import SparqlMetrics.Proofs.Token.Places
import SparqlMetrics.Proofs.Token.Strings

/-!
# The lexemes of a valid text

Readers go byte by byte, but they stop only at the end, at an ASCII byte or behind one, so no
character of a valid text is cut. The one number that is turned into bytes is that of a code point
escape in a string, and it has to be a scalar value. Main statement: `TokenStream.keeps_tokens`.
-/
namespace SparqlMetrics

namespace Text

/-- Whether the digits that are owed complete a value to a scalar value, if all of them are there. -/
def owesScalar : Nat → Nat → Text → Bool
  | 0, value, _ => decide value.isValidChar
  | _ + 1, _, [] => true
  | owed + 1, value, b :: rest =>
    !b.isHexDigit || owesScalar owed (value * 16 + b.hexValue) rest

/-- Whether what stands behind a backslash is no escape of a number outside the scalar values. -/
def namesScalar : Text → Bool
  | [] => true
  | letter :: digits =>
    if letter == 0x75 then owesScalar 4 0 digits
    else if letter == 0x55 then owesScalar 8 0 digits
    else true

/-- Whether all code point escapes in a string as it is written name scalar values: no surrogate and
no number above 0x10FFFF. The flag says whether a backslash stands in front. -/
def escapesScalars : Bool → Text → Bool
  | _, [] => true
  | false, b :: rest => escapesScalars (b == Byte.backslash) rest
  | true, b :: rest => namesScalar (b :: rest) && escapesScalars false rest

end Text

open Text

def Lexeme.isString : Lexeme → Bool
  | .string _ _ => true
  | _ => false

/-- Whether the code point escapes in all strings of a text name scalar values. -/
def Text.NamesScalars (s : Text) : Prop :=
  ∀ t ∈ (TokenStream.ofText s).tokens, t.lexeme.isString = true →
    escapesScalars false (t.slice s) = true

instance (s : Text) : Decidable s.NamesScalars :=
  inferInstanceAs (Decidable (∀ t ∈ (TokenStream.ofText s).tokens, t.lexeme.isString = true →
    escapesScalars false (t.slice s) = true))

namespace Lexeme

variable {p s rest behind : Text} {b : Byte} {l : Lexeme}

/-- A lexeme with valid texts in front of a valid text. -/
structure Encoded (found : Lexeme × Text) : Prop where
  strings : TextClass.utf8.Keeps found.1.strings
  behind : found.2.IsUtf8

/-- White space and comments in front of a text; only in a comment does a reader stand inside a
character. -/
theorem isUtf8_skipGap {inComment : Bool} (h : IsUtf8 (p ++ s))
    (outside : inComment = false → p = []) : IsUtf8 (skipGap inComment s) := by
  induction s generalizing p inComment with
  | nil => exact isUtf8_nil
  | cons b rest ih =>
      have behind : ∀ c : Byte, c.isHigh = false → b = c → IsUtf8 ([] ++ rest) :=
        fun c ascii same => (h.from (same ▸ ascii)).tail (same ▸ ascii)
      rw [skipGap]
      cases inComment with
      | true =>
          rw [if_pos rfl]
          cases newline : b == Byte.newline with
          | true =>
              rw [bne, newline]
              exact ih (behind _ (by decide) (beq_iff_eq.mp newline)) fun _ => rfl
          | false =>
              rw [bne, newline]
              exact ih (p := p ++ [b]) (by rwa [List.append_assoc])
                fun same => absurd same (by decide)
      | false =>
          obtain rfl := outside rfl
          rw [if_neg Bool.false_ne_true]
          split
          · next white =>
            exact ih (p := []) (h.tail (ascii_of (by decide) b white)) fun _ => rfl
          split
          · next hash =>
            exact ih (behind _ (by decide) (beq_iff_eq.mp hash)) fun same => absurd same (by decide)
          · exact h

/-- A reader that stops in front of an ASCII byte cuts no character. -/
theorem isUtf8_stop (h : IsUtf8 (p ++ b :: rest)) (ascii : b.isHigh = false) :
    IsUtf8 (p ++ []) ∧ IsUtf8 (b :: rest) :=
  ⟨(List.append_nil p).symm ▸ h.before ascii, h.from ascii⟩

theorem isNameByte_of_isHigh (b : Byte) (h : b.isHigh = true) : b.isNameByte = true := by
  rw [Byte.isNameByte, h, Bool.or_true]

theorem ascii_of_and {a : Byte} {c : Bool} (h : (b == a && c) = true) (ascii : a.isHigh = false) :
    b.isHigh = false := by
  rwa [beq_iff_eq.mp (Bool.and_eq_true_iff.mp h).1]

/-- A byte that continues no local name is in ASCII. -/
theorem ascii_of_not_continues {c : Bool}
    (h : ¬ (b.isNameByte || b == Byte.hyphen || c) = true) : b.isHigh = false := by
  rw [Bool.not_eq_true, Bool.or_eq_false_iff, Bool.or_eq_false_iff] at h
  exact isHigh_eq_false isNameByte_of_isHigh h.1.1

/-- The local part of a name, with the bytes of it in front that are read already. -/
theorem isUtf8_localName (blank : Bool) (s : Text) : ∀ {p : Text}, IsUtf8 (p ++ s) →
    IsUtf8 (p ++ (localName blank s).1) ∧ IsUtf8 (localName blank s).2 := by
  fun_induction localName blank s with
  | case1 => exact fun h => ⟨h, isUtf8_nil⟩
  | case2 b backslash escaped rest name behind read ih =>
      -- the backslash is dropped in front of a whole character
      intro p h
      have ascii := ascii_of_and backslash (by decide)
      have kept : IsUtf8 (p ++ [escaped] ++ rest) := by
        rw [← List.append_cons]
        exact (h.before ascii).append ((h.from ascii).tail ascii)
      have inner := ih kept
      rw [read, ← List.append_cons] at inner
      exact inner
  | case3 b backslash => exact fun h => isUtf8_stop h (ascii_of_and backslash (by decide))
  | case4 b _ percent high low rest digits name behind read ih =>
      intro p h
      have inner := ih (p := p ++ [b, high, low]) (by rwa [List.append_assoc])
      rw [read, List.append_assoc] at inner
      exact inner
  | case5 b _ percent => exact fun h => isUtf8_stop h (ascii_of_and percent (by decide))
  | case6 b rest _ percent => exact fun h => isUtf8_stop h (ascii_of_and percent (by decide))
  | case7 b rest _ _ _ name behind read ih =>
      intro p h
      have inner := ih (List.append_cons .. ▸ h)
      rw [read, ← List.append_cons] at inner
      exact inner
  | case8 b rest _ _ other => exact fun h => isUtf8_stop h (ascii_of_not_continues other)
  | case9 b rest _ _ _ _ name behind _ read ih =>
      intro p h
      have inner := ih (List.append_cons .. ▸ h)
      rw [read, ← List.append_cons] at inner
      exact inner
  | case10 b rest _ _ other => exact fun h => isUtf8_stop h (ascii_of_not_continues other)

/-! ## Readers -/

theorem encoded_readPrefixedName {label : Text} (hl : label.IsUtf8) (h : rest.IsUtf8)
    (read : readPrefixedName label rest = .ok (l, behind)) : Encoded (l, behind) := by
  unfold readPrefixedName at read
  split at read
  · have name := isUtf8_localName true rest (p := []) h
    split at read
    · cases read
    · next found =>
      obtain ⟨rfl, rfl⟩ := Prod.mk.inj (Except.ok.inj read)
      rw [found] at name
      exact ⟨TextClass.keeps_singleton.mpr name.1, name.2⟩
  · have name := isUtf8_localName false rest (p := []) h
    obtain ⟨rfl, rfl⟩ := Prod.mk.inj (Except.ok.inj read)
    exact ⟨TextClass.keeps_cons hl (TextClass.keeps_singleton.mpr name.1), name.2⟩

theorem keeps_ofWord {word : Text} (h : word.IsUtf8) :
    TextClass.utf8.Keeps (ofWord word).strings := by
  unfold ofWord
  split <;> exact TextClass.keeps_singleton.mpr h

theorem isLabelByte_of_isHigh (b : Byte) (h : b.isHigh = true) : isLabelByte b = true := by
  rw [isLabelByte, isNameByte_of_isHigh b h, Bool.true_or, Bool.true_or]

theorem encoded_readWord (h : s.IsUtf8) (read : readWord s = .ok (l, behind)) :
    Encoded (l, behind) := by
  have label := h.takeWhile isLabelByte_of_isHigh
  have tail := h.dropWhile isLabelByte_of_isHigh
  unfold readWord at read
  simp only at read
  split at read
  · next colon =>
    rw [Bool.and_eq_true, beq_iff_eq] at colon
    obtain ⟨rest, same⟩ := List.head?_eq_some_iff.mp colon.1
    rw [same] at tail read
    exact encoded_readPrefixedName label (tail.tail (by decide)) read
  · obtain ⟨rfl, rfl⟩ := Prod.mk.inj (Except.ok.inj read)
    exact ⟨keeps_ofWord (h.takeWhile isNameByte_of_isHigh), h.dropWhile isNameByte_of_isHigh⟩

theorem encoded_readVariable? (h : rest.IsUtf8) {found : Lexeme × Text}
    (read : readVariable? rest = some found) : Encoded found := by
  unfold readVariable? at read
  simp only at read
  split at read
  · cases read
  · rw [← Option.some.inj read]
    exact ⟨TextClass.keeps_singleton.mpr (h.takeWhile isNameByte_of_isHigh),
      h.dropWhile isNameByte_of_isHigh⟩

theorem encoded_readLanguageTag (h : rest.IsUtf8)
    (read : readLanguageTag rest = .ok (l, behind)) : Encoded (l, behind) := by
  have ascii : ∀ b : Byte, isTagByte b = true → b.isHigh = false := ascii_of (by decide)
  unfold readLanguageTag at read
  simp only at read
  split at read
  · rw [← Except.ok.inj read]
    exact ⟨TextClass.keeps_singleton.mpr (isUtf8_takeWhile ascii rest), h.dropWhile_ascii ascii⟩
  · cases read

theorem isUtf8_fraction? {run : Text} (h : s.IsUtf8) (found : fraction? s = some (run, behind)) :
    run.IsUtf8 ∧ behind.IsUtf8 := by
  cases s with
  | nil => cases found
  | cons point digits =>
      unfold fraction? at found
      simp only at found
      split at found
      · next opens =>
        obtain ⟨rfl, rfl⟩ := Prod.mk.inj (Option.some.inj found)
        have ascii := ascii_of_and opens (by decide)
        exact ⟨(isUtf8_takeWhile isHigh_of_isDigit digits).cons ascii,
          (h.tail ascii).dropWhile_ascii isHigh_of_isDigit⟩
      · cases found

theorem isUtf8_exponentSign (h : s.IsUtf8) :
    (exponentSign s).1.IsUtf8 ∧ (exponentSign s).2.IsUtf8 := by
  unfold exponentSign
  split
  · next sign =>
    cases s with
    | nil => exact ⟨isUtf8_nil, isUtf8_nil⟩
    | cons b rest =>
        have ascii : b.isHigh = false := by
          simp only [List.head?_cons, Bool.or_eq_true, decide_eq_true_eq, Option.some.injEq] at sign
          rcases sign with rfl | rfl <;> decide
        exact ⟨isUtf8_singleton ascii, h.tail ascii⟩
  · exact ⟨isUtf8_nil, h⟩

theorem isUtf8_exponent? {run : Text} (h : s.IsUtf8) (found : exponent? s = some (run, behind)) :
    run.IsUtf8 ∧ behind.IsUtf8 := by
  cases s with
  | nil => cases found
  | cons e rest =>
      unfold exponent? at found
      simp only at found
      split at found
      · next letter =>
        have ascii : e.isHigh = false := by
          rw [Bool.or_eq_true, beq_iff_eq, beq_iff_eq] at letter
          rcases letter with rfl | rfl <;> decide
        have sign := isUtf8_exponentSign (h.tail ascii)
        split at found
        · cases found
        · obtain ⟨rfl, rfl⟩ := Prod.mk.inj (Option.some.inj found)
          exact ⟨(sign.1.cons ascii).append (isUtf8_takeWhile isHigh_of_isDigit _),
            sign.2.dropWhile_ascii isHigh_of_isDigit⟩
      · cases found

theorem encoded_readNumber (h : s.IsUtf8) : Encoded (readNumber s) := by
  have digits := isUtf8_takeWhile isHigh_of_isDigit s
  have rest := h.dropWhile_ascii isHigh_of_isDigit
  have scaled : ∀ {digits rest exponent behind : Text}, digits.IsUtf8 → rest.IsUtf8 →
      exponent? rest = some (exponent, behind) →
        Encoded (.number .double (digits ++ exponent), behind) := by
    intro digits rest exponent behind hd hr found
    have inner := isUtf8_exponent? hr found
    exact ⟨TextClass.keeps_singleton.mpr (hd.append inner.1), inner.2⟩
  cases part : fraction? (s.dropWhile Byte.isDigit) with
  | none =>
      simp only [readNumber, part]
      split
      · next found => exact scaled digits rest found
      · exact ⟨TextClass.keeps_singleton.mpr digits, rest⟩
  | some pair =>
      have inner := isUtf8_fraction? rest part
      simp only [readNumber, part]
      split
      · next found => exact scaled (digits.append inner.1) inner.2 found
      · exact ⟨TextClass.keeps_singleton.mpr (digits.append inner.1), inner.2⟩

theorem encoded_markOf {second : Byte} (ascii : second.isHigh = false) (both single : Symbol)
    (h : rest.IsUtf8) : Encoded (markOf second both single rest) := by
  unfold markOf
  split
  · next next =>
    obtain ⟨tail, rfl⟩ := List.head?_eq_some_iff.mp next
    exact ⟨TextClass.keeps_nil, h.tail ascii⟩
  · exact ⟨TextClass.keeps_nil, h⟩

theorem ascii_of_ofByte? (b : Byte) : (Symbol.ofByte? b).isSome = true → b.isHigh = false :=
  Byte.forall_of_digits (P := fun b => (Symbol.ofByte? b).isSome = true → b.isHigh = false)
    (by decide) b

theorem encoded_readLess (h : rest.IsUtf8) : Encoded (readLess rest) := by
  unfold readLess
  cases found : iriReference? rest with
  | none => exact encoded_markOf (by decide) _ _ h
  | some pair =>
      have cut := eq_of_iriReference? found
      have whole : IsUtf8 (pair.1 ++ Byte.greater :: pair.2) := cut ▸ h
      exact ⟨TextClass.keeps_singleton.mpr (whole.before (by decide)),
        (whole.from (by decide)).tail (by decide)⟩

/-! ## Strings -/

/-- Where a scanner stands in a valid string: between characters the one ahead may be read in part,
in an escape there is none. -/
def StringState.Stands (p s : Text) : StringState → Prop
  | .plain => IsUtf8 (p ++ s)
  | .escaped => p.IsUtf8 ∧ s.IsUtf8
  | .codePoint owed _ => 0 < owed ∧ p.IsUtf8 ∧ s.IsUtf8

/-- Whether the escapes from a state on name scalar values. -/
def StringState.names (s : Text) : StringState → Bool
  | .plain => escapesScalars false s
  | .escaped => escapesScalars true s
  | .codePoint owed value => owesScalar owed value s && escapesScalars false s

theorem ascii_of_simpleEscape? {byte : Byte} (h : simpleEscape? b = some byte) :
    b.isHigh = false ∧ byte.isHigh = false := by
  have all := Byte.forall_of_digits (P := fun b => (simpleEscape? b).all (!Byte.isHigh ·) = true ∧
    ((simpleEscape? b).isSome = true → b.isHigh = false)) (by decide) b
  rw [h] at all
  exact ⟨all.2 rfl, by simpa using all.1⟩

theorem solid_of_isHexDigit (b : Byte) :
    b.isHexDigit = true → b.isHigh = false ∧ (b == Byte.backslash) = false :=
  Byte.forall_of_digits (P := fun b => b.isHexDigit = true →
    b.isHigh = false ∧ (b == Byte.backslash) = false) (by decide) b

theorem escapesScalars_cons {word : Text} (other : (b == Byte.backslash) = false)
    (h : escapesScalars false (b :: word) = true) : escapesScalars false word = true := by
  rwa [escapesScalars, other] at h

/-- A digit that is owed. -/
theorem names_digit {owed code : Nat} {body : Text} (digit : b.isHexDigit = true)
    (more : 0 < owed) :
    StringState.names (b :: body) (.codePoint owed code) =
      StringState.names body (.codePoint (owed - 1) (code * 16 + b.hexValue)) := by
  obtain ⟨more, rfl⟩ := Nat.exists_eq_add_one.mpr more
  rw [StringState.names, owesScalar, digit, Bool.not_true, Bool.false_or, escapesScalars,
    (solid_of_isHexDigit b digit).2]
  rfl

theorem solid_of_quote (h : b = Byte.apostrophe ∨ b = Byte.quote) :
    b.isHigh = false ∧ (b == Byte.backslash) = false := by
  rcases h with rfl | rfl <;> decide

theorem isUtf8_of_closesLong {mark : Byte} (ascii : mark.isHigh = false)
    (closes : closesLong mark rest = true) (h : rest.IsUtf8) : IsUtf8 (rest.drop 2) := by
  unfold closesLong at closes
  split at closes
  · next a b rest =>
    rw [Bool.and_eq_true, Bool.and_eq_true, beq_iff_eq, beq_iff_eq] at closes
    obtain ⟨⟨rfl, rfl⟩, _⟩ := closes
    exact (h.tail ascii).tail ascii
  · cases closes

/-- A byte in front of what a reader leaves belongs to the word that it reads. -/
theorem exists_body {word : Text} (cut : b :: rest = word ++ behind)
    (shorter : behind.length ≤ rest.length) : ∃ body, word = b :: body ∧ rest = body ++ behind := by
  cases word with
  | nil =>
      rw [← show b :: rest = behind from cut, List.length_cons] at shorter
      omega
  | cons a body =>
      obtain ⟨rfl, rfl⟩ := List.cons.inj cut
      exact ⟨body, rfl, rfl⟩

/-- A step from a valid state leads to a valid state. If the escapes ahead name scalar values, so do
those behind the byte, and a valid end of the decoded string makes the whole of it valid. -/
theorem Moves.stands {mark : Byte} {long : Bool} {state state' : StringState} {bytes : Text}
    (quoted : mark = Byte.apostrophe ∨ mark = Byte.quote)
    (h : Moves mark long rest state b bytes state') (stands : state.Stands p (b :: rest)) :
    ∃ front, state'.Stands front rest ∧ ∀ body value, state.names (b :: body) = true →
      state'.names body = true ∧
        (IsUtf8 (front ++ value) → IsUtf8 (p ++ (bytes ++ value))) := by
  have kept : ∀ {b : Byte}, (b == Byte.backslash) = false → IsUtf8 (p ++ b :: rest) →
      ∃ front, IsUtf8 (front ++ rest) ∧ ∀ body value, escapesScalars false (b :: body) = true →
        escapesScalars false body = true ∧
          (IsUtf8 (front ++ value) → IsUtf8 (p ++ ([b] ++ value))) := by
    intro b other valid
    exact ⟨p ++ [b], by rwa [← List.append_cons], fun body value named =>
      ⟨escapesScalars_cons other named, fun inner => by rwa [← List.append_assoc]⟩⟩
  cases h with
  | mark => exact kept (solid_of_quote quoted).2 stands
  | kept _ _ other => exact kept other stands
  | backslash =>
      have ascii : Byte.backslash.isHigh = false := by decide
      exact ⟨p, ⟨stands.before ascii, (stands.from ascii).tail ascii⟩,
        fun body value named => ⟨named, id⟩⟩
  | simple found =>
      obtain ⟨ascii, isByte⟩ := ascii_of_simpleEscape? found
      refine ⟨[], stands.2.tail ascii, fun body value named => ⟨?_, fun inner => ?_⟩⟩
      · rw [StringState.names, escapesScalars, Bool.and_eq_true] at named
        exact named.2
      · exact stands.1.append ((isUtf8_singleton isByte).append inner)
  | short =>
      exact ⟨p, ⟨by decide, stands.1, stands.2.tail (by decide)⟩,
        fun body value named => ⟨named, id⟩⟩
  | wide =>
      exact ⟨p, ⟨by decide, stands.1, stands.2.tail (by decide)⟩,
        fun body value named => ⟨named, id⟩⟩
  | digit isDigit more =>
      exact ⟨p, ⟨by omega, stands.2.1, stands.2.2.tail (solid_of_isHexDigit b isDigit).1⟩,
        fun body value named => ⟨by rwa [names_digit isDigit (by omega)] at named, id⟩⟩
  | @lastDigit _ owed code isDigit last =>
      obtain rfl : owed = 1 := Nat.le_antisymm last stands.1
      refine ⟨[], stands.2.2.tail (solid_of_isHexDigit b isDigit).1, fun body value named => ?_⟩
      rw [names_digit isDigit (by decide), StringState.names, Bool.and_eq_true] at named
      exact ⟨named.2, fun inner => stands.2.1.append
        ((isUtf8_ofCodePoint (of_decide_eq_true named.1)).append inner)⟩

/-- What a scanner leaves behind a string in a valid text is valid, and so is the decoded string if
the escapes in it name scalar values. -/
theorem Scans.encoded {mark : Byte} {long : Bool} {state : StringState} {value : Text}
    (quoted : mark = Byte.apostrophe ∨ mark = Byte.quote)
    (h : Scans mark long state s value behind) (stands : state.Stands p s) :
    behind.IsUtf8 ∧ ∀ body, s = body ++ behind → state.names body = true →
      IsUtf8 (p ++ value) := by
  obtain ⟨ascii, _⟩ := solid_of_quote quoted
  induction h generalizing p with
  | close =>
      exact ⟨(stands.from ascii).tail ascii, fun _ _ _ => (isUtf8_stop stands ascii).1⟩
  | closeLong _ closes =>
      exact ⟨isUtf8_of_closesLong ascii closes ((stands.from ascii).tail ascii),
        fun _ _ _ => (isUtf8_stop stands ascii).1⟩
  | step moves scans ih =>
      obtain ⟨front, stands', keeps⟩ := moves.stands quoted stands
      obtain ⟨left, decoded⟩ := ih stands'
      refine ⟨left, fun body same named => ?_⟩
      obtain ⟨body, rfl, cut⟩ := exists_body same (Scans.step moves scans).length_le
      obtain ⟨named', whole⟩ := keeps body _ named
      exact whole (decoded body cut named')

/-- The answer of a reader: what is left is valid, and so is the lexeme if the escapes of a string
name scalar values. -/
structure ReadsUtf8 (s : Text) (l : Lexeme) (behind : Text) : Prop where
  left : behind.IsUtf8
  strings : ∀ word, s = word ++ behind → (l.isString = true → escapesScalars false word = true) →
    TextClass.utf8.Keeps l.strings

theorem Encoded.reads {found : Lexeme × Text} (h : Encoded found) :
    ReadsUtf8 s found.1 found.2 :=
  ⟨h.behind, fun _ _ _ => h.strings⟩

theorem reads_readString (quoted : b = Byte.apostrophe ∨ b = Byte.quote) (h : rest.IsUtf8)
    (read : readString b rest = .ok (l, behind)) : ReadsUtf8 (b :: rest) l behind := by
  obtain ⟨ascii, other⟩ := solid_of_quote quoted
  simp only [readString] at read
  split at read
  · next value after found =>
    obtain ⟨rfl, rfl⟩ := Prod.mk.inj (Except.ok.inj read)
    split at found
    · next triple =>
      obtain ⟨inner, rfl⟩ := List.isPrefixOf_iff_prefix.mp triple
      have valid : IsUtf8 inner := (h.tail ascii).tail ascii
      obtain ⟨left, decoded⟩ := (scans_of_stringBody found).encoded (p := []) quoted valid
      have shorter := length_of_stringBody found
      refine ⟨left, fun word same named => TextClass.keeps_singleton.mpr ?_⟩
      rw [List.cons_append, List.singleton_append, List.drop_succ_cons, List.drop_succ_cons,
        List.drop_zero] at shorter
      have bound := Nat.le_of_lt shorter
      obtain ⟨_, rfl, second⟩ := exists_body same (Nat.le_add_right_of_le (k := 2) bound)
      obtain ⟨_, rfl, third⟩ := exists_body second (Nat.le_add_right_of_le (k := 1) bound)
      obtain ⟨body, rfl, cut⟩ := exists_body third bound
      exact decoded body cut (escapesScalars_cons other (escapesScalars_cons other
        (escapesScalars_cons other (named rfl))))
    · obtain ⟨left, decoded⟩ := (scans_of_stringBody found).encoded (p := []) quoted h
      refine ⟨left, fun word same named => TextClass.keeps_singleton.mpr ?_⟩
      obtain ⟨body, rfl, cut⟩ := exists_body same (Nat.le_of_lt (length_of_stringBody found))
      exact decoded body cut (escapesScalars_cons other (named rfl))
  · cases read

/-! ## Lexemes -/

theorem ReadBy.readsUtf8 (h : ReadBy b rest l behind) (valid : IsUtf8 (b :: rest)) :
    ReadsUtf8 (b :: rest) l behind := by
  have tail : b.isHigh = false → rest.IsUtf8 := valid.tail
  cases h with
  | pair ascii ascii' => exact (encoded_markOf ascii' _ _ (tail ascii)).reads
  | mark known =>
      exact ⟨tail (ascii_of_ofByte? b (known ▸ rfl)), fun _ _ _ => TextClass.keeps_nil⟩
  | less opens => exact (encoded_readLess (tail (by rw [opens]; decide))).reads
  | variableName opens read =>
      have ascii : b.isHigh = false := by rcases opens with rfl | rfl <;> decide
      exact (encoded_readVariable? (tail ascii) read).reads
  | question opens => exact ⟨tail (by rw [opens]; decide), fun _ _ _ => TextClass.keeps_nil⟩
  | andAnd opens second =>
      obtain ⟨behind, rfl⟩ := List.head?_eq_some_iff.mp second
      have rest := tail (by rw [opens]; decide)
      exact ⟨rest.tail (by decide), fun _ _ _ => TextClass.keeps_nil⟩
  | languageTag opens read =>
      exact (encoded_readLanguageTag (tail (by rw [opens]; decide)) read).reads
  | string opens read => exact reads_readString opens (tail (solid_of_quote opens).1) read
  | unlabelled opens read =>
      exact (encoded_readPrefixedName isUtf8_nil (tail (by rw [opens]; decide)) read).reads
  | number => exact (encoded_readNumber valid).reads
  | word start read => exact (encoded_readWord valid read).reads

theorem Opens.readsUtf8 (h : Opens s l rest) (valid : s.IsUtf8) :
    ReadsUtf8 (skipGap false s) l rest := by
  have ahead : IsUtf8 (skipGap false s) := isUtf8_skipGap (p := []) valid fun _ => rfl
  obtain ⟨read, full⟩ := h
  cases solid : skipGap false s with
  | nil =>
      rw [solid] at read
      rw [← (Prod.mk.inj (Except.ok.inj read)).1] at full
      cases full
  | cons b more =>
      rw [solid] at read ahead
      exact (readBy_of_readFrom read).readsUtf8 ahead

end Lexeme

namespace TokenStream

theorem keeps_ofRest {whole s : Text} (suffix : s <:+ whole) (valid : s.IsUtf8) :
    ∀ t ∈ (ofRest whole.length s).tokens,
      (t.lexeme.isString = true → escapesScalars false (t.slice whole) = true) →
        TextClass.utf8.Keeps t.lexeme.strings := by
  induction s using induction_opens with
  | stop s none =>
      rw [tokens_ofRest_eq_nil _ none]
      exact nofun
  | token s l rest opens ih =>
      obtain ⟨gap, word, cut, _, ahead, _⟩ := opens.exists_word
      obtain ⟨front, whole_eq⟩ := suffix
      have suffix' : rest <:+ whole := ⟨front ++ (gap ++ word), by simp [← whole_eq, cut]⟩
      have slice := slice_of_opens (l := l) (whole_eq.symm.trans (congrArg (front ++ ·) cut)) ahead
      have reads := opens.readsUtf8 valid
      rw [ofRest_of_opens _ opens]
      refine List.forall_mem_cons.mpr ⟨fun named => ?_, ih suffix' reads.left⟩
      rw [slice] at named
      exact reads.strings word ahead named

/-- The texts of all tokens of a valid text are valid. -/
theorem keeps_tokens {s : Text} (valid : s.IsUtf8) (names : s.NamesScalars) :
    ∀ t ∈ (ofText s).tokens, TextClass.utf8.Keeps t.lexeme.strings :=
  fun t member => keeps_ofRest (List.suffix_refl s) valid t member (names t member)

end TokenStream

end SparqlMetrics
