import SparqlMetrics.Algebra.Term
import SparqlMetrics.Grammar.Error
import SparqlMetrics.Token.Stream

/-!
# Cursors and grammar actions

A cursor stands at a token of a stream; behind the last token it stays there. A grammar action moves
a cursor and returns a value, or stops with the first error. Loops of the grammar are two actions:
`many` collects items until there is none, `repeatFrom` changes a value until nothing follows. An
item takes a token each time, so as many rounds as there are tokens left always suffice.
-/
namespace SparqlMetrics

/-- A place in a token stream, with the number of bracketed blank nodes met before it. -/
structure Cursor where
  ahead : List Token
  last : Token
  blankCount : Nat := 0

namespace Cursor

/-- A cursor at the first token of a stream. -/
def ofStream (stream : TokenStream) : Cursor := { ahead := stream.tokens, last := stream.last }

def token (c : Cursor) : Token := c.ahead.headD c.last

def following (c : Cursor) : Token := c.ahead.tail.headD c.last

def advance (c : Cursor) : Cursor := { c with ahead := c.ahead.tail }

/-- The error raised at a cursor; on a lexical fault it is that fault. -/
def error (c : Cursor) (cause : Malformed) : ParseError :=
  match c.token.lexeme with
  | .invalid fault => ⟨.malformed (.lexical fault), c.token.start⟩
  | _ => ⟨.malformed cause, c.token.start⟩

end Cursor

/-- An action of the grammar. -/
abbrev Parser := StateT Cursor (Except ParseError)

namespace Parser

def fail {α : Type} (cause : Malformed) : Parser α := fun c => .error (c.error cause)

/-- Stops because something was expected at the current token. -/
def expected {α : Type} (e : Expectation) : Parser α := fail (.expected e)

def token : Parser Token := fun c => .ok (c.token, c)

def lexeme : Parser Lexeme := fun c => .ok (c.token.lexeme, c)

def followingLexeme : Parser Lexeme := fun c => .ok (c.following.lexeme, c)

def position : Parser Nat := fun c => .ok (c.token.start, c)

def skip : Parser Unit := fun c => .ok ((), c.advance)

def isAt (s : Symbol) : Parser Bool := fun c => .ok (c.token.lexeme == .symbol s, c)

def mark (s : Symbol) (e : Expectation) : Parser Unit := do
  if (← lexeme) == .symbol s then skip else expected e

def isAtKeyword (k : Keyword) : Parser Bool :=
  fun c => .ok (c.token.lexeme.keyword? == some k, c)

def keyword (k : Keyword) (e : Expectation) : Parser Unit := do
  if ← isAtKeyword k then skip else expected e

/-- Passes over a given keyword if it stands here, and tells whether it did. -/
def tryKeyword (k : Keyword) : Parser Bool := do
  if ← isAtKeyword k then
    skip
    pure true
  else pure false

/-- Passes over a given mark if it stands here, and tells whether it did. -/
def tryMark (s : Symbol) : Parser Bool := do
  if ← isAt s then
    skip
    pure true
  else pure false

/-- Passes over a variable and returns its name. -/
def variableName (e : Expectation) : Parser Text := do
  match ← lexeme with
  | .variableName name =>
    skip
    pure name
  | _ => expected e

/-- The number of tokens before the last one, from the current one on. -/
def remaining : Parser Nat := fun c => .ok (c.ahead.length, c)

/-- Collects items, at most a given number of them. -/
def manyUpTo {α : Type} (item : Parser (Option α)) : Nat → Parser (List α)
  | 0 => pure []
  | bound + 1 => do
    match ← item with
    | none => pure []
    | some value => return value :: (← manyUpTo item bound)

/-- Collects items until there is none. -/
def many {α : Type} (item : Parser (Option α)) : Parser (List α) := do
  manyUpTo item ((← remaining) + 1)

/-- Changes a value, at most a given number of times. -/
def repeatUpTo {σ : Type} (change : σ → Parser (Option σ)) : Nat → σ → Parser σ
  | 0, value => pure value
  | bound + 1, value => do
    match ← change value with
    | none => pure value
    | some changed => repeatUpTo change bound changed

/-- Changes a value until nothing follows that changes it. -/
def repeatFrom {σ : Type} (change : σ → Parser (Option σ)) (value : σ) : Parser σ := do
  repeatUpTo change ((← remaining) + 1) value

end Parser

end SparqlMetrics
