import SparqlMetrics.Json.Basic
import SparqlMetrics.Text.Numeral

/-!
# Writing JSON

A value on one line, or on lines that are indented by so many spaces a level. Bytes below a space,
quotes and backslashes of a string are escaped, and all others stand for themselves, so that the
text is UTF-8 when the strings are. Main definition: `Json.write`.
-/
namespace SparqlMetrics

namespace Json

/-- A byte of a string, or the escape for it. -/
def escaped (b : Byte) : Text :=
  if b == Byte.quote || b == Byte.backslash then [Byte.backslash, b]
  else if b == Byte.backspace then utf8 "\\b"
  else if b == Byte.formFeed then utf8 "\\f"
  else if b == Byte.newline then utf8 "\\n"
  else if b == Byte.carriageReturn then utf8 "\\r"
  else if b == Byte.tab then utf8 "\\t"
  else if b < Byte.space then
    utf8 "\\u00" ++ [Text.hexDigit (b.toNat / 16), Text.hexDigit (b.toNat % 16)]
  else [b]

def quoted (s : Text) : Text := Byte.quote :: s.flatMap escaped ++ [Byte.quote]

/-- A number, with an exponent where it has one. -/
def numeral (mantissa exponent : Int) : Text :=
  Text.ofInt mantissa ++ if exponent = 0 then [] else 0x65 :: Text.ofInt exponent

/-- What stands in front of an item at a level. -/
def lineBreak (indent : Option Nat) (level : Nat) : Text :=
  match indent with
  | none => []
  | some width => Byte.newline :: List.replicate (width * level) Byte.space

/-- Items with commas between them inside brackets that stand at a level. -/
def enclosed (opening closing : Byte) (indent : Option Nat) (level : Nat) (items : List Text) :
    Text :=
  if items.isEmpty then [opening, closing]
  else
    opening :: Text.join [Byte.comma] (items.map (lineBreak indent (level + 1) ++ ·)) ++
      (lineBreak indent level ++ [closing])

/-- The name of a member with what stands behind it. -/
def label (indent : Option Nat) (name : Text) : Text :=
  quoted name ++ Byte.colon :: if indent.isSome then [Byte.space] else []

mutual

/-- A value whose brackets stand at a level. -/
def write (indent : Option Nat) (level : Nat) : Json → Text
  | .null => utf8 "null"
  | .boolean value => utf8 (if value then "true" else "false")
  | .number mantissa exponent => numeral mantissa exponent
  | .string value => quoted value
  | .array items =>
    enclosed Byte.lbracket Byte.rbracket indent level (writeItems indent (level + 1) items)
  | .object members =>
    enclosed Byte.lbrace Byte.rbrace indent level (writeMembers indent (level + 1) members)

def writeItems (indent : Option Nat) (level : Nat) : List Json → List Text
  | [] => []
  | x :: rest => write indent level x :: writeItems indent level rest

def writeMembers (indent : Option Nat) (level : Nat) : List (Text × Json) → List Text
  | [] => []
  | (name, x) :: rest =>
    (label indent name ++ write indent level x) :: writeMembers indent level rest

end

mutual

/-- The strings of a value and the names of its members. -/
def strings : Json → List Text
  | .null | .boolean _ | .number _ _ => []
  | .string value => [value]
  | .array items => stringsOfItems items
  | .object members => stringsOfMembers members

def stringsOfItems : List Json → List Text
  | [] => []
  | x :: rest => strings x ++ stringsOfItems rest

def stringsOfMembers : List (Text × Json) → List Text
  | [] => []
  | (name, x) :: rest => name :: (strings x ++ stringsOfMembers rest)

end

end Json

end SparqlMetrics
