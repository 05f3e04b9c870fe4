/-!
# Byte texts

Queries, records and generated files are byte strings: a text may hold any byte, and a place in it
is a byte offset. This module holds the type of texts, the named bytes of the SPARQL syntax and the
ASCII character classes. A byte from 0x80 on belongs to no letter, digit or space class; where such
bytes may be part of a name, the class of name bytes admits them explicitly.
-/
namespace SparqlMetrics

abbrev Byte := UInt8

/-- A byte string, first byte first. -/
abbrev Text := List Byte

/-- Texts are compared byte by byte. -/
instance : LawfulBEq Text := inferInstance

/-- The UTF-8 bytes of a string written in this library. -/
def utf8 (s : String) : Text := s.toByteArray.data.toList

namespace Byte

abbrev backspace : Byte := 0x08
abbrev tab : Byte := 0x09
abbrev newline : Byte := 0x0A
abbrev formFeed : Byte := 0x0C
abbrev carriageReturn : Byte := 0x0D
abbrev space : Byte := 0x20
abbrev bang : Byte := 0x21
abbrev quote : Byte := 0x22
abbrev hash : Byte := 0x23
abbrev dollar : Byte := 0x24
abbrev percent : Byte := 0x25
abbrev ampersand : Byte := 0x26
abbrev apostrophe : Byte := 0x27
abbrev lparen : Byte := 0x28
abbrev rparen : Byte := 0x29
abbrev star : Byte := 0x2A
abbrev plus : Byte := 0x2B
abbrev comma : Byte := 0x2C
abbrev hyphen : Byte := 0x2D
abbrev dot : Byte := 0x2E
abbrev slash : Byte := 0x2F
abbrev colon : Byte := 0x3A
abbrev semicolon : Byte := 0x3B
abbrev less : Byte := 0x3C
abbrev equals : Byte := 0x3D
abbrev greater : Byte := 0x3E
abbrev question : Byte := 0x3F
abbrev atSign : Byte := 0x40
abbrev lbracket : Byte := 0x5B
abbrev backslash : Byte := 0x5C
abbrev rbracket : Byte := 0x5D
abbrev caret : Byte := 0x5E
abbrev underscore : Byte := 0x5F
abbrev backquote : Byte := 0x60
abbrev lbrace : Byte := 0x7B
abbrev pipe : Byte := 0x7C
abbrev rbrace : Byte := 0x7D
abbrev tilde : Byte := 0x7E

/-- White space: space, tab, newline, vertical tab, form feed and carriage return. -/
def isSpace (b : Byte) : Bool := b == space || (tab ≤ b && b ≤ carriageReturn)

def isDigit (b : Byte) : Bool := 0x30 ≤ b && b ≤ 0x39

def isUpper (b : Byte) : Bool := 0x41 ≤ b && b ≤ 0x5A

def isLower (b : Byte) : Bool := 0x61 ≤ b && b ≤ 0x7A

def isAlpha (b : Byte) : Bool := b.isUpper || b.isLower

def isAlnum (b : Byte) : Bool := b.isAlpha || b.isDigit

def isHexDigit (b : Byte) : Bool :=
  b.isDigit || (0x41 ≤ b && b ≤ 0x46) || (0x61 ≤ b && b ≤ 0x66)

/-- A byte outside ASCII. -/
def isHigh (b : Byte) : Bool := 0x80 ≤ b

/-- A byte that may open a name: a letter, an underscore or a byte outside ASCII. -/
def isNameStart (b : Byte) : Bool := b.isAlpha || b == underscore || b.isHigh

/-- A byte that may continue a name. -/
def isNameByte (b : Byte) : Bool := b.isAlnum || b == underscore || b.isHigh

/-- The capital of a small letter; every other byte is kept. -/
def toUpper (b : Byte) : Byte := if b.isLower then b - 0x20 else b

/-- The value of a hexadecimal digit. -/
def hexValue (b : Byte) : Nat :=
  if b.isDigit then b.toNat - 0x30
  else if b.isLower then b.toNat - 0x61 + 10
  else b.toNat - 0x41 + 10

end Byte

namespace Text

/-- Every small letter replaced by its capital. -/
def toUpper (s : Text) : Text := s.map Byte.toUpper

def spaces (n : Nat) : Text := List.replicate n Byte.space

/-- A text up to its first zero byte, which ends a path, a call's argument and a reported error. -/
def upToZero (s : Text) : Text := s.takeWhile (· != 0)

def bracketed (s : Text) : Text := Byte.lparen :: s ++ [Byte.rparen]

def angled (s : Text) : Text := Byte.less :: s ++ [Byte.greater]

/-- Fields joined by a separator. -/
def join (separator : Text) (fields : List Text) : Text := separator.intercalate fields

/-- The members of a list of texts in order of first occurrence, each once. -/
def distinct (names : List Text) : List Text :=
  names.foldl (fun seen name => if name ∈ seen then seen else seen ++ [name]) []

theorem mem_foldl_distinct {names seen : List Text} {name : Text} :
    name ∈ names.foldl (fun seen name => if name ∈ seen then seen else seen ++ [name]) seen ↔
      name ∈ seen ∨ name ∈ names := by
  induction names generalizing seen with
  | nil => simp
  | cons first rest ih =>
    rw [List.foldl_cons, ih]
    split
    · next old =>
      constructor
      · exact fun h => h.imp_right (List.mem_cons_of_mem _)
      · rintro (h | h)
        · exact .inl h
        · rcases List.mem_cons.mp h with same | h
          · exact .inl (same ▸ old)
          · exact .inr h
    · simp [or_assoc]

theorem mem_distinct {names : List Text} {name : Text} :
    name ∈ distinct names ↔ name ∈ names := by
  simp [distinct, mem_foldl_distinct]

theorem nodup_foldl_distinct {names seen : List Text} (h : seen.Nodup) :
    (names.foldl (fun seen name => if name ∈ seen then seen else seen ++ [name]) seen).Nodup := by
  induction names generalizing seen with
  | nil => exact h
  | cons first rest ih =>
    rw [List.foldl_cons]
    split
    · exact ih h
    · next fresh =>
      apply ih
      rw [List.nodup_append]
      refine ⟨h, by simp, ?_⟩
      intro a old b last same
      rw [List.mem_singleton.mp last] at same
      exact fresh (same ▸ old)

theorem nodup_distinct (names : List Text) : (distinct names).Nodup :=
  nodup_foldl_distinct List.nodup_nil

@[simp] theorem length_toUpper (s : Text) : (toUpper s).length = s.length := by
  simp [toUpper]

end Text

end SparqlMetrics
