import SparqlMetrics.Text.Basic

/-!
# Decimal numerals

Numbers are written in decimal without leading zeros, a negative one with a minus sign. Reading
comes in two forms: the value of a run of digits, and the reading of a signed 64-bit number as the
start of a text, which says whether no number is there or whether it does not fit.
-/
namespace SparqlMetrics.Text

def digit (n : Nat) : Byte := 0x30 + n.toUInt8

/-- The byte of a hexadecimal digit, in small letters from ten on. -/
def hexDigit (n : Nat) : Byte := if n < 10 then digit n else 0x57 + n.toUInt8

def ofNat (n : Nat) : Text :=
  if n < 10 then [digit n] else ofNat (n / 10) ++ [digit (n % 10)]

/-- An integer in decimal. -/
def ofInt : Int → Text
  | .ofNat n => ofNat n
  | .negSucc n => Byte.hyphen :: ofNat (n + 1)

/-- The value of a run of decimal digits. -/
def digitsValue (digits : Text) : Nat :=
  digits.foldl (fun value b => 10 * value + (b.toNat - 0x30)) 0

def maxInt64 : Int := 9223372036854775807

def minInt64 : Int := -9223372036854775808

/-- What opens a text read as a signed 64-bit number. -/
inductive LeadingInteger where
  | missing
  | tooLarge
  | read (value : Int) (rest : Text)
  deriving DecidableEq, Repr

/-- The sign in front of a number and the text behind it. -/
def leadingSign (s : Text) : Bool × Text :=
  if s.head? = some Byte.hyphen then (true, s.tail)
  else if s.head? = some Byte.plus then (false, s.tail)
  else (false, s)

/-- Reads white space, an optional sign and as many digits as there are. -/
def leadingInteger (s : Text) : LeadingInteger :=
  let (negative, body) := leadingSign (s.dropWhile Byte.isSpace)
  let digits := body.takeWhile Byte.isDigit
  if digits.isEmpty then .missing
  else
    let magnitude : Int := digitsValue digits
    let value := if negative then -magnitude else magnitude
    if value < minInt64 ∨ maxInt64 < value then .tooLarge
    else .read value (body.dropWhile Byte.isDigit)

/-- Whether digits open with a zero that another digit follows. -/
def hasLeadingZero (digits : Text) : Bool := digits.head? == some 0x30 && digits.length != 1

/-- The sign and the digits of the numeral ahead, and the text behind it. -/
def integerPart? (s : Text) : Option ((Bool × Text) × Text) :=
  let negative := s.head? == some Byte.hyphen
  let body := if negative then s.tail else s
  let digits := body.takeWhile Byte.isDigit
  if digits.isEmpty || hasLeadingZero digits then none
  else some ((negative, digits), body.dropWhile Byte.isDigit)

/-- The number of a sign and digits. -/
def signedValue (negative : Bool) (digits : Text) : Int :=
  if negative then -digitsValue digits else digitsValue digits

end SparqlMetrics.Text
