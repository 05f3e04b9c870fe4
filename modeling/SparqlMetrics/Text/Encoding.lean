import SparqlMetrics.Text.Basic

/-!
# UTF-8

Encoding of a code point as it is written in a string escape, the number of code points of a text,
and the check that a query file has to pass. The encoder takes any number: from 0x10000 on it uses
four bytes and keeps the low eight bits of each. The check looks at lead bytes and at the number of
continuation bytes behind them.
-/
namespace SparqlMetrics.Text

/-- A continuation byte holding the six bits of a code point from a given bit on. -/
def continuation (code shift : Nat) : Byte := (0x80 + code >>> shift % 0x40).toUInt8

/-- The bytes of a code point. -/
def ofCodePoint (code : Nat) : Text :=
  if code < 0x80 then [code.toUInt8]
  else if code < 0x800 then [(0xC0 + code >>> 6).toUInt8, continuation code 0]
  else if code < 0x10000 then
    [(0xE0 + code >>> 12).toUInt8, continuation code 6, continuation code 0]
  else
    [(0xF0 ||| (code >>> 18)).toUInt8, continuation code 12, continuation code 6,
      continuation code 0]

def isContinuation (b : Byte) : Bool := b &&& 0xC0 == 0x80

/-- The number of code points: every byte counts that continues none. -/
def codePoints (s : Text) : Nat := s.countP (!isContinuation ·)

/-- How many continuation bytes a lead byte announces. -/
def announced? (lead : Byte) : Option Nat :=
  if lead < 0x80 then some 0
  else if lead &&& 0xE0 == 0xC0 && 0xC2 ≤ lead then some 1
  else if lead &&& 0xF0 == 0xE0 then some 2
  else if lead &&& 0xF8 == 0xF0 && lead ≤ 0xF4 then some 3
  else none

/-- The check of a text of which the given number of continuation bytes is still owed. -/
def validAfter : Nat → Text → Bool
  | owed, [] => owed == 0
  | owed + 1, b :: rest => isContinuation b && validAfter owed rest
  | 0, b :: rest =>
    match announced? b with
    | some owed => validAfter owed rest
    | none => false

/-- Whether each lead byte is followed by as many continuation bytes as it announces. -/
def isValidUtf8 (s : Text) : Bool := validAfter 0 s

end SparqlMetrics.Text
