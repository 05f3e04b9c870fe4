import SparqlMetrics.Text.Numeral
import SparqlMetrics.Text.Search

/-!
# Places in a text

Byte offsets as lines and columns, counted from one, and the code frame that shows a place: the
number and content of its line with carets below it. A range lies within its text and is not empty
unless the text is.
-/
namespace SparqlMetrics

/-- A line and a column, counted from one; columns count bytes. -/
structure LineColumn where
  line : Nat := 1
  column : Nat := 1
  deriving DecidableEq, Repr

/-- The place behind a byte. -/
def LineColumn.pass (p : LineColumn) (b : Byte) : LineColumn :=
  if b == Byte.newline then ⟨p.line + 1, 1⟩ else ⟨p.line, p.column + 1⟩

def lineColumn (s : Text) (offset : Nat) : LineColumn :=
  (s.take offset).foldl LineColumn.pass {}

/-- A range of a text in lines and columns and in bytes. -/
structure SourceRange where
  first : LineColumn := {}
  behind : LineColumn := {}
  byteStart : Nat := 0
  byteEnd : Nat := 0
  deriving DecidableEq, Repr

namespace SourceRange

/-- The range between two offsets, moved into the text and made to hold at least one byte. -/
def ofBytes (s : Text) (start stop : Nat) : SourceRange :=
  if s.isEmpty then {}
  else
    let byteStart := min start (s.length - 1)
    let byteEnd := min (max stop (byteStart + 1)) s.length
    ⟨lineColumn s byteStart, lineColumn s byteEnd, byteStart, byteEnd⟩

/-- The line on which a range begins, without a carriage return at its end. -/
def lineText (s : Text) (range : SourceRange) : Text :=
  Text.withoutReturn ((Text.split [Byte.newline] s).getD (range.first.line - 1) [])

def caretWidth (range : SourceRange) : Nat :=
  if range.first.line == range.behind.line && range.first.column < range.behind.column then
    range.behind.column - range.first.column
  else 1

/-- The code frame of a range, or nothing where its column lies behind its line. -/
def frame (s : Text) (range : SourceRange) : Text :=
  let content := lineText s range
  let before := range.first.column - 1
  if s.isEmpty || content.length < before then []
  else
    let number := Text.ofNat range.first.line
    let margin := Text.spaces number.length
    utf8 " --> line " ++ number ++ utf8 ", col " ++ Text.ofNat range.first.column ++
      utf8 "\n" ++ margin ++ utf8 " |\n" ++ number ++ utf8 " | " ++ content ++
      utf8 "\n" ++ margin ++ utf8 " | " ++ Text.spaces before ++
      List.replicate range.caretWidth Byte.caret

end SourceRange

end SparqlMetrics
