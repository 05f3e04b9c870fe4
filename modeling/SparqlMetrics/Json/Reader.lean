import SparqlMetrics.Json.Basic
import SparqlMetrics.Text.Encoding
import SparqlMetrics.Text.Numeral
import SparqlMetrics.Text.Search
import SparqlMetrics.Token.Scan

/-!
# Reading JSON

A strict reader of JSON texts. There is one value in a text, blanks are space, tab and the two line
ends, a string has no byte below a space in it and no half of a surrogate pair, and a numeral has no
leading zero. Each part of a value has a reader of its own, which takes what it reads from the front
of a text. Main definition: `Json.read?`.
-/
namespace SparqlMetrics

namespace Json

/-- A reader takes what it reads from the front of a text. -/
abbrev Reader (α : Type) : Type := Text → Option (α × Text)

/-- A byte that may stand between the parts of a value. -/
def isBlank (b : Byte) : Bool :=
  b == Byte.space || b == Byte.tab || b == Byte.newline || b == Byte.carriageReturn

/-- The text behind the blanks ahead. -/
def skip (s : Text) : Text := s.dropWhile isBlank

/-- The text behind a byte and the blanks in front of it. -/
def behind? (b : Byte) (s : Text) : Option Text :=
  match skip s with
  | [] => none
  | first :: rest => if first == b then some rest else none

/-- The text behind a word ahead. -/
def behindWord? (word s : Text) : Option Text :=
  if word.isPrefixOf s then some (s.drop word.length) else none

/-! ## Strings -/

/-- The bytes that an escape of two bytes stands for, by its second byte. -/
def escapes : List (Byte × Byte) := [
  (Byte.quote, Byte.quote), (Byte.backslash, Byte.backslash), (Byte.slash, Byte.slash),
  (0x62, Byte.backspace), (0x66, Byte.formFeed), (0x6E, Byte.newline),
  (0x72, Byte.carriageReturn), (0x74, Byte.tab)]

/-- The code unit of four hexadecimal digits. -/
def codeUnit? : Reader Nat := fun s =>
  let digits := s.take 4
  if digits.length == 4 && digits.all Byte.isHexDigit then
    some (digits.foldl (fun value b => 16 * value + b.hexValue) 0, s.drop 4)
  else none

/-- The character of one code unit or of a surrogate pair. -/
def unicode? : Reader Text := fun s => do
  let (unit, rest) ← codeUnit? s
  if 0xD800 ≤ unit ∧ unit < 0xDC00 then
    let (low, rest) ← codeUnit? (← behindWord? (utf8 "\\u") rest)
    if 0xDC00 ≤ low ∧ low < 0xE000 then
      some (Text.ofCodePoint (0x10000 + 0x400 * (unit - 0xD800) + (low - 0xDC00)), rest)
    else none
  else if 0xDC00 ≤ unit ∧ unit < 0xE000 then none
  else some (Text.ofCodePoint unit, rest)

def escape? : Reader Text
  | [] => none
  | b :: rest =>
    match escapes.lookup b with
    | some byte => some ([byte], rest)
    | none => if b == 0x75 then unicode? rest else none

/-- The bytes up to the quote that closes a string, of which there are fewer than a bound. -/
def characters : Nat → Reader Text
  | 0, _ => none
  | _ + 1, [] => none
  | bound + 1, b :: s =>
    if b == Byte.quote then some ([], s)
    else do
      let (front, rest) ←
        if b == Byte.backslash then escape? s
        else if b < Byte.space then none
        else some ([b], s)
      let (behind, rest) ← characters bound rest
      some (front ++ behind, rest)

/-- A string behind the quote that opens it. -/
def string? : Reader Text := fun s => characters s.length s

/-! ## Values -/

/-- The power of ten that an exponent names, with its letter in front. -/
def exponentValue (s : Text) : Int :=
  let (sign, digits) := Lexeme.exponentSign (s.drop 1)
  Text.signedValue (sign == [Byte.hyphen]) digits

/-- A number with the fraction and the exponent behind its whole part. -/
def number? : Reader Json := fun s => do
  let ((negative, digits), rest) ← Text.integerPart? s
  let (fraction, rest) := (Lexeme.fraction? rest).getD ([], rest)
  let (exponent, rest) := (Lexeme.exponent? rest).getD ([], rest)
  let places := fraction.drop 1
  some (number (Text.signedValue negative (digits ++ places))
    (exponentValue exponent - places.length), rest)

/-- A value that is a word. -/
def word? : Reader Json := fun s =>
  [(utf8 "null", null), (utf8 "true", boolean true), (utf8 "false", boolean false)].findSome?
    fun (word, value) => (behindWord? word s).map fun rest => (value, rest)

variable {α : Type}

/-- One or more items with commas between them up to a closing byte, no more than a bound. -/
def items (closing : Byte) (item : Reader α) : Nat → Reader (List α)
  | 0, _ => none
  | bound + 1, s => do
    let (x, rest) ← item s
    match behind? closing rest with
    | some rest => some ([x], rest)
    | none =>
      let (xs, rest) ← items closing item bound (← behind? Byte.comma rest)
      some (x :: xs, rest)

/-- Items with commas between them up to a closing byte. -/
def sequence (closing : Byte) (item : Reader α) : Reader (List α) := fun s =>
  match behind? closing s with
  | some rest => some ([], rest)
  | none => items closing item s.length s

def member (value : Reader Json) : Reader (Text × Json) := fun s => do
  let (name, rest) ← string? (← behind? Byte.quote s)
  let (x, rest) ← value (← behind? Byte.colon rest)
  some ((name, x), rest)

/-- A value that is nested less deeply than a bound. -/
def value : Nat → Reader Json
  | 0, _ => none
  | depth + 1, s =>
    match skip s with
    | [] => none
    | b :: rest =>
      if b == Byte.quote then (string? rest).map (Prod.map string id)
      else if b == Byte.lbracket then
        (sequence Byte.rbracket (value depth) rest).map (Prod.map array id)
      else if b == Byte.lbrace then
        (sequence Byte.rbrace (member (value depth)) rest).map (Prod.map object id)
      else (number? (b :: rest)).or (word? (b :: rest))

/-- The value of a text. A text is not nested more deeply than it is long. -/
def read? (s : Text) : Option Json := do
  let (x, rest) ← value (s.length + 1) s
  if (skip rest).isEmpty then some x else none

end Json

end SparqlMetrics
