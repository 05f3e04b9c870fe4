import Mathlib.Data.List.TakeWhile
import SparqlMetrics.Json.Reader
import SparqlMetrics.Proofs.Text.Fields
import SparqlMetrics.Proofs.Text.Integer
import SparqlMetrics.Proofs.Text.Utf8

/-!
# What is read of JSON

A JSON text is valid UTF-8 and is read as its value. Each reader takes what was written for it, in
front of whatever may follow: `Reads` says so for what is in front of a byte that may follow a value.
Main definition: `Json.IsJson`. Main statements: `Json.reads_integer`, `Json.reads_array`,
`Json.reads_object`.
-/
namespace SparqlMetrics

namespace Json

/-- Whether a text is valid UTF-8 and the JSON text of a value. -/
def IsJson (s : Text) (x : Json) : Prop := s.IsUtf8 ∧ read? s = some x

/-! ## What stands behind a value -/

def endsValue (b : Byte) : Bool :=
  isBlank b || b == Byte.comma || b == Byte.rbracket || b == Byte.rbrace

/-- Whether a text goes on as it may behind a value. -/
def Ends (rest : Text) : Prop := ∀ b, rest.head? = some b → endsValue b = true

/-- Whether a reader takes a text for something where a value may end behind it. -/
def Reads (reader : Reader α) (t : Text) (x : α) : Prop :=
  ∀ rest, Ends rest → reader (t ++ rest) = some (x, rest)

variable {b closing : Byte} {s t rest name : Text} {x : Json} {depth : Nat}

theorem ends_cons (h : endsValue b = true) : Ends (b :: rest) := by
  rintro _ ⟨⟩
  exact h

theorem ends_of_blanks (h : ∀ b ∈ rest, isBlank b = true) : Ends rest := by
  intro b first
  rw [endsValue, h b (List.mem_of_mem_head? first)]
  rfl

theorem ends_append (h : ∀ b ∈ t, isBlank b = true) (ends : Ends rest) : Ends (t ++ rest) := by
  cases t with
  | nil => exact ends
  | cons b t =>
      refine ends_cons ?_
      rw [endsValue, h b List.mem_cons_self]
      rfl

theorem not_of_endsValue (b : Byte) (h : endsValue b = true) :
    b.isDigit = false ∧ (b == Byte.dot) = false ∧ (b == 0x65 || b == 0x45) = false :=
  Byte.forall_of_digits (P := fun b => endsValue b = true →
    b.isDigit = false ∧ (b == Byte.dot) = false ∧ (b == 0x65 || b == 0x45) = false)
    (by decide) b h

theorem Ends.digits (h : Ends rest) : Text.EndsDigits rest :=
  fun b first => (not_of_endsValue b (h b first)).1

theorem Ends.fraction (h : Ends rest) : Lexeme.fraction? rest = none := by
  cases rest with
  | nil => rfl
  | cons b rest => simp [Lexeme.fraction?, (not_of_endsValue b (h b rfl)).2.1]

theorem Ends.exponent (h : Ends rest) : Lexeme.exponent? rest = none := by
  cases rest with
  | nil => rfl
  | cons b rest => simp [Lexeme.exponent?, (not_of_endsValue b (h b rfl)).2.2]

theorem skip_cons (h : isBlank b = false) : skip (b :: s) = b :: s := by
  rw [skip, List.dropWhile_cons_of_neg (by simp [h])]

theorem skip_append (h : ∀ b ∈ t, isBlank b = true) : skip (t ++ s) = skip s := by
  rw [skip, List.dropWhile_append, List.dropWhile_eq_nil_iff.mpr h]
  rfl

theorem behind?_append (h : ∀ b ∈ t, isBlank b = true) : behind? b (t ++ s) = behind? b s := by
  rw [behind?, behind?, skip_append h]

theorem behind?_self (h : isBlank b = false) : behind? b (b :: s) = some s := by
  simp [behind?, skip_cons h]

theorem behind?_other (h : isBlank b = false) (other : b ≠ closing) :
    behind? closing (b :: s) = none := by
  simp [behind?, skip_cons h, other]

/-! ## Written strings and numbers -/

/-- Whether what a piece of a string stands for is a text. -/
structure Spells (piece text : Text) : Prop where
  nonempty : piece ≠ []
  read : ∀ bound rest, characters (bound + 1) (piece ++ rest) =
    (characters bound rest).map fun (behind, rest) => (text ++ behind, rest)

theorem characters_flatMap {spell : Byte → Text} (spells : ∀ b, Spells (spell b) [b]) {bound : Nat}
    (enough : s.length < bound) :
    characters bound (s.flatMap spell ++ Byte.quote :: rest) = some (s, rest) := by
  induction s generalizing bound with
  | nil =>
      obtain ⟨bound, rfl⟩ := Nat.exists_eq_add_of_lt enough
      simp [characters]
  | cons b s ih =>
      obtain ⟨bound, rfl⟩ := Nat.exists_eq_succ_of_ne_zero (Nat.ne_zero_of_lt enough)
      rw [List.flatMap_cons, List.append_assoc, (spells b).read,
        ih (Nat.lt_of_succ_lt_succ enough)]
      rfl

theorem length_le_flatMap {spell : Byte → Text} (spells : ∀ b, Spells (spell b) [b]) (s : Text) :
    s.length ≤ (s.flatMap spell).length := by
  induction s with
  | nil => exact Nat.le_refl 0
  | cons b s ih =>
      have first := List.length_pos_iff.mpr (spells b).nonempty
      rw [List.flatMap_cons, List.length_append, List.length_cons]
      omega

/-- A string written byte by byte is read back. -/
theorem string?_flatMap {spell : Byte → Text} (spells : ∀ b, Spells (spell b) [b]) (s rest : Text) :
    string? (s.flatMap spell ++ Byte.quote :: rest) = some (s, rest) := by
  refine characters_flatMap spells ?_
  have length := length_le_flatMap spells s
  rw [List.length_append, List.length_cons]
  omega

/-- A number in decimal is read back. -/
theorem reads_ofInt (n : Int) : Reads number? (Text.ofInt n) (number n 0) := by
  intro rest ends
  have value := Text.signedValue_ofNat n
  simp [number?, Text.integerPart?_ofInt n ends.digits, ends.fraction, ends.exponent, value]
  rfl

/-! ## Written values -/

theorem reads_string (h : ∀ rest, string? (t ++ rest) = some (name, rest)) :
    Reads (value (depth + 1)) (Byte.quote :: t) (string name) := by
  intro rest _
  rw [value, List.cons_append, skip_cons (by decide)]
  simp [h]

theorem opens_number (b : Byte) (h : b = Byte.hyphen ∨ b.isDigit = true) :
    isBlank b = false ∧ b ≠ Byte.quote ∧ b ≠ Byte.lbracket ∧ b ≠ Byte.lbrace :=
  Byte.forall_of_digits (P := fun b => b = Byte.hyphen ∨ b.isDigit = true →
    isBlank b = false ∧ b ≠ Byte.quote ∧ b ≠ Byte.lbracket ∧ b ≠ Byte.lbrace)
    (by decide) b h

/-- A number is read as a value, since nothing else opens as it does. -/
theorem reads_number (opens : ∃ b s, t = b :: s ∧ (b = Byte.hyphen ∨ b.isDigit = true))
    (reads : Reads number? t x) : Reads (value (depth + 1)) t x := by
  intro rest ends
  have read := reads rest ends
  obtain ⟨b, s, rfl, first⟩ := opens
  obtain ⟨blank, quote, lbracket, lbrace⟩ := opens_number b first
  rw [List.cons_append] at read ⊢
  rw [value, skip_cons blank]
  simp [quote, lbracket, lbrace, read]

theorem opens_ofInt (n : Int) (s : Text) :
    ∃ b rest, Text.ofInt n ++ s = b :: rest ∧ (b = Byte.hyphen ∨ b.isDigit = true) := by
  obtain ⟨b, rest, cut⟩ := List.exists_cons_of_ne_nil (Text.ofInt_ne_nil n)
  exact ⟨b, rest ++ s, by rw [cut, List.cons_append],
    Text.of_mem_ofInt (cut ▸ List.mem_cons_self)⟩

theorem reads_member {v : Text} (h : ∀ rest, string? (t ++ rest) = some (name, rest))
    (reads : Reads (value depth) v x) :
    Reads (member (value depth)) (Byte.quote :: t ++ Byte.colon :: v) (name, x) := by
  intro rest ends
  rw [List.append_assoc, List.cons_append, member, behind?_self (by decide), Option.bind_eq_bind,
    Option.bind_some, h, List.cons_append]
  simp [behind?_self (b := Byte.colon) (by decide), reads rest ends]

section Sequences

variable {item : Reader α} {ts : List Text} {xs : List α} {gap : Text}

theorem length_le_join (separator : Byte) (ts : List Text) :
    ts.length ≤ (Text.join [separator] ts).length + 1 := by
  cases ts with
  | nil => simp
  | cons t ts =>
      rw [Text.length_join, List.length_cons, List.length_singleton]
      omega

/-- Whether a byte closes an array or an object. -/
def Closes (closing : Byte) : Prop := closing = Byte.rbracket ∨ closing = Byte.rbrace

theorem Closes.ends (h : Closes closing) : Ends (closing :: rest) := by
  rcases h with rfl | rfl <;> exact ends_cons (by decide)

theorem Closes.behind?_self (h : Closes closing) :
    behind? closing (closing :: rest) = some rest := by
  rcases h with rfl | rfl <;> exact Json.behind?_self (by decide)

theorem Closes.behind?_comma (h : Closes closing) :
    behind? closing (Byte.comma :: rest) = none := by
  rcases h with rfl | rfl <;> exact behind?_other (by decide) (by decide)

theorem items_join (closes : Closes closing) (reads : List.Forall₂ (Reads item) ts xs)
    (blanks : ∀ b ∈ gap, isBlank b = true) (nonempty : ts ≠ []) (rest : Text) {bound : Nat}
    (enough : ts.length ≤ bound) :
    items closing item bound (Text.join [Byte.comma] ts ++ (gap ++ closing :: rest)) =
      some (xs, rest) := by
  induction reads generalizing bound with
  | nil => exact absurd rfl nonempty
  | @cons t x ts xs first others ih =>
      obtain ⟨bound, rfl⟩ := Nat.exists_eq_succ_of_ne_zero (Nat.ne_zero_of_lt enough)
      cases others with
      | nil =>
          rw [Text.join_singleton, items, first _ (ends_append blanks closes.ends)]
          simp [behind?_append blanks, closes.behind?_self]
      | cons second others =>
          rw [Text.join_cons _ _ (List.cons_ne_nil _ _), List.append_assoc, List.append_assoc,
            items, List.singleton_append, first _ (ends_cons (by decide))]
          have behind := ih (List.cons_ne_nil _ _) (Nat.le_of_succ_le_succ enough)
          simp [closes.behind?_comma, behind?_self (b := Byte.comma) (by decide), behind]

/-- Joined items are read back one by one. -/
theorem sequence_join (closes : Closes closing) (reads : List.Forall₂ (Reads item) ts xs)
    (opens : ∀ t ∈ ts, ∀ rest, behind? closing (t ++ rest) = none)
    (blanks : ∀ b ∈ gap, isBlank b = true) (rest : Text) :
    sequence closing item (Text.join [Byte.comma] ts ++ (gap ++ closing :: rest)) =
      some (xs, rest) := by
  cases reads with
  | nil => simp [sequence, Text.join, behind?_append blanks, closes.behind?_self]
  | @cons t x ts xs first others =>
      have enough : (t :: ts).length ≤
          (Text.join [Byte.comma] (t :: ts) ++ (gap ++ closing :: rest)).length := by
        have length := length_le_join Byte.comma (t :: ts)
        rw [List.length_append, List.length_append, List.length_cons (a := closing)]
        omega
      have read := items_join closes (.cons first others) blanks (List.cons_ne_nil _ _) rest enough
      have front : ∃ tail, Text.join [Byte.comma] (t :: ts) = t ++ tail := by
        cases ts with
        | nil => exact ⟨[], by simp⟩
        | cons next ts => exact ⟨_, Text.join_cons _ _ (List.cons_ne_nil _ _)⟩
      obtain ⟨tail, cut⟩ := front
      rw [sequence, read, cut, List.append_assoc, opens t List.mem_cons_self]

end Sequences

/-- An array, with blanks in front of its closing bracket. -/
theorem reads_array {ts : List Text} {xs : List Json} {gap : Text}
    (reads : List.Forall₂ (Reads (value depth)) ts xs)
    (opens : ∀ t ∈ ts, ∀ rest, behind? Byte.rbracket (t ++ rest) = none)
    (blanks : ∀ b ∈ gap, isBlank b = true) :
    Reads (value (depth + 1))
      (Byte.lbracket :: Text.join [Byte.comma] ts ++ (gap ++ [Byte.rbracket])) (array xs) := by
  intro rest _
  have read := sequence_join (.inl rfl) reads opens blanks rest
  have quote : Byte.lbracket ≠ Byte.quote := by decide
  rw [value, List.append_assoc, List.cons_append, skip_cons (by decide)]
  simp [quote, read]

/-- An object, with blanks in front of its closing brace. -/
theorem reads_object {ts : List Text} {members : List (Text × Json)} {gap : Text}
    (reads : List.Forall₂ (Reads (member (value depth))) ts members)
    (opens : ∀ t ∈ ts, ∀ rest, behind? Byte.rbrace (t ++ rest) = none)
    (blanks : ∀ b ∈ gap, isBlank b = true) :
    Reads (value (depth + 1))
      (Byte.lbrace :: Text.join [Byte.comma] ts ++ (gap ++ [Byte.rbrace])) (object members) := by
  intro rest _
  have read := sequence_join (.inr rfl) reads opens blanks rest
  have quote : Byte.lbrace ≠ Byte.quote := by decide
  have lbracket : Byte.lbrace ≠ Byte.lbracket := by decide
  rw [value, List.append_assoc, List.cons_append, skip_cons (by decide)]
  simp [quote, lbracket, read]

/-- A value that is read in front of blanks is the value of the text. -/
theorem read?_append (reads : Reads (value ((t ++ rest).length + 1)) t x)
    (blanks : ∀ b ∈ rest, isBlank b = true) : read? (t ++ rest) = some x := by
  have skipped : skip rest = [] := List.dropWhile_eq_nil_iff.mpr blanks
  rw [read?, reads rest (ends_of_blanks blanks)]
  simp [skipped]

/-- A value with blanks in it, and what is no value: a numeral with a leading zero, half of a
surrogate pair, and an array with a comma too many. -/
example : read? (utf8 " [ -1.5e3 , \"\\u00E9\" ]") =
    some (.array [.number (-15) 2, .string (utf8 "é")]) ∧
    read? (utf8 "01") = none ∧ read? (utf8 "\"\\uD83D\"") = none ∧
    read? (utf8 "[true,]") = none := by
  refine ⟨?_, ?_, ?_, ?_⟩ <;> rfl

end Json

end SparqlMetrics
