import SparqlMetrics.Text.Basic

/-!
# Searching, splitting and replacing

A pattern is matched at its leftmost occurrence, and matches do not overlap: after a match the
search goes on behind it. Splitting and replacing walk over the text once; a counter holds how many
bytes of the last match are still to be passed over.
-/
namespace SparqlMetrics.Text

/-- The text before and the text after the leftmost occurrence of a pattern. -/
def cut? (pattern : Text) : Text → Option (Text × Text)
  | [] => if pattern.isEmpty then some ([], []) else none
  | b :: rest =>
    if pattern.isPrefixOf (b :: rest) then some ([], (b :: rest).drop pattern.length)
    else (cut? pattern rest).map fun (before, after) => (b :: before, after)

def contains (pattern s : Text) : Bool := (cut? pattern s).isSome

/-- Puts a byte in front of the first field. -/
def consField (b : Byte) : List Text → List Text
  | [] => [[b]]
  | field :: fields => (b :: field) :: fields

/-- The fields of a text, given how many bytes of a delimiter are still to be passed over. -/
def splitAfter (delimiter : Text) : Nat → Text → List Text
  | _, [] => [[]]
  | skip + 1, _ :: rest => splitAfter delimiter skip rest
  | 0, b :: rest =>
    if delimiter.isPrefixOf (b :: rest) then [] :: splitAfter delimiter (delimiter.length - 1) rest
    else consField b (splitAfter delimiter 0 rest)

/-- The fields between the occurrences of a delimiter, empty fields included. An empty delimiter
splits nothing. -/
def split (delimiter s : Text) : List Text :=
  if delimiter.isEmpty then [s] else splitAfter delimiter 0 s

/-- Replaces every match, given how many bytes of the last match are still to be passed over. -/
def replaceAfter (pattern replacement : Text) : Nat → Text → Text
  | _, [] => []
  | skip + 1, _ :: rest => replaceAfter pattern replacement skip rest
  | 0, b :: rest =>
    if pattern.isPrefixOf (b :: rest) then
      replacement ++ replaceAfter pattern replacement (pattern.length - 1) rest
    else b :: replaceAfter pattern replacement 0 rest

/-- Replaces every occurrence of a pattern. An empty pattern changes nothing. -/
def replaceAll (pattern replacement s : Text) : Text :=
  if pattern.isEmpty then s else replaceAfter pattern replacement 0 s

/-- A text without the white space at its ends. -/
def trim (s : Text) : Text :=
  ((s.dropWhile Byte.isSpace).reverse.dropWhile Byte.isSpace).reverse

/-- A line without a carriage return at its end. -/
def withoutReturn (line : Text) : Text :=
  if line.getLast? = some Byte.carriageReturn then line.dropLast else line

/-- The lines of a text, each trimmed, blank ones left out, joined by single spaces. -/
def collapseLines (s : Text) : Text :=
  join [Byte.space] (((split [Byte.newline] s).map trim).filter (!·.isEmpty))

theorem splitAfter_ne_nil (delimiter : Text) (skip : Nat) (s : Text) :
    splitAfter delimiter skip s ≠ [] := by
  induction s generalizing skip with
  | nil => simp [splitAfter]
  | cons b rest ih =>
    cases skip with
    | succ skip => simpa [splitAfter] using ih skip
    | zero =>
      by_cases h : delimiter.isPrefixOf (b :: rest)
      · simp [splitAfter, h]
      · simp only [splitAfter, h]
        cases splitAfter delimiter 0 rest <;> simp [consField]

end SparqlMetrics.Text
