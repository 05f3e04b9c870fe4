import SparqlMetrics.Text.Encoding
import SparqlMetrics.Text.Search
import SparqlMetrics.Written.Query

/-!
# Normalized texts

The text that a query's length is measured on. It is the written form without its declarations, with
a placeholder for every prefixed name and everything on one line, so that neither the layout nor the
choice of prefixes counts. Prefixed names are found by a scanner of its own, which passes over
quoted strings and angle brackets and looks at words where a token may begin. Main definition:
`QueryUnit.normalText`.
-/
namespace SparqlMetrics

namespace Normal

/-- What stands for a prefixed name. -/
def placeholder : Text := utf8 "<r>"

def isWordByte (b : Byte) : Bool :=
  b.isAlnum || b.isHigh || b == Byte.underscore || b == Byte.hyphen || b == Byte.dot ||
    b == Byte.colon || b == Byte.percent

/-- A byte behind which a word goes on rather than begins. -/
def continuesToken (b : Byte) : Bool :=
  isWordByte b || b == Byte.question || b == Byte.dollar || b == Byte.atSign

/-- The rest of a quoted string behind its first quote. A string that is not closed runs to the end
of the text. -/
def quotedRest : Text → Text
  | [] => []
  | b :: rest =>
    if b == Byte.quote then [b]
    else if b == Byte.backslash then
      match rest with
      | [] => [b]
      | escaped :: rest => b :: escaped :: quotedRest rest
    else b :: quotedRest rest

/-- A byte that shows that an angle bracket before it opens no IRI. -/
def breaksIri (b : Byte) : Bool :=
  b.isSpace || b == Byte.less || b == Byte.quote || b == Byte.lbrace || b == Byte.rbrace

/-- The rest of an IRI behind its opening bracket. -/
def iriRest? : Text → Option Text
  | [] => none
  | b :: rest =>
    if b == Byte.greater then some [b]
    else if breaksIri b then none
    else (iriRest? rest).map (b :: ·)

/-- A text without the dots at its end. -/
def withoutFinalDots (s : Text) : Text := (s.reverse.dropWhile (· == Byte.dot)).reverse

/-- The quoted string or IRI that opens a text. -/
def verbatim? (b : Byte) (rest : Text) : Option Text :=
  if b == Byte.quote then some (b :: quotedRest rest)
  else if b == Byte.less then (iriRest? rest).map (b :: ·)
  else none

/-- The word that opens a text where one may begin; dots at its end do not belong to it. -/
def wordAt (before : Option Byte) (s : Text) : Text :=
  if (before.map continuesToken).getD false then []
  else withoutFinalDots (s.takeWhile isWordByte)

/-- What is read at a place of a text: the piece taken and what stands for it. -/
structure Piece where
  taken : Text
  standsFor : Text

/-- The piece that opens a text behind a given byte: a string, an IRI, a word or a single byte. A
word that opens with the marker of a prefix is replaced. -/
def piece (marker : Text) (before : Option Byte) (b : Byte) (rest : Text) : Piece :=
  match verbatim? b rest with
  | some taken => ⟨taken, taken⟩
  | none =>
    let word := wordAt before (b :: rest)
    if word.isEmpty then ⟨[b], [b]⟩
    else if marker.isPrefixOf (b :: rest) then ⟨word, placeholder⟩
    else ⟨word, word⟩

/-- Replaces the names under a prefix behind a given byte. A counter holds how many bytes of the
last piece are still to be passed over. -/
def replaceFrom (marker : Text) : Nat → Option Byte → Text → Text
  | _, _, [] => []
  | skip + 1, _, b :: rest => replaceFrom marker skip (some b) rest
  | 0, before, b :: rest =>
    let p := piece marker before b rest
    p.standsFor ++ replaceFrom marker (p.taken.length - 1) (some b) rest

/-- Replaces the names under a label by the placeholder. -/
def replaceNames (label s : Text) : Text := replaceFrom (label ++ [Byte.colon]) 0 none s

def removeLine (s : Text) (content : Text) : Text :=
  Text.replaceAll (content ++ [Byte.newline]) [] s

/-- Removes the declaration of a label, and with that of the default namespace the base's too. -/
def removeDeclarations (base : Option Text) (entry : Text × Text) (s : Text) : Text :=
  let s := removeLine s (utf8 "PREFIX " ++ entry.1 ++ utf8 ": " ++ Text.angled entry.2)
  match base with
  | some base =>
    if entry.1.isEmpty then removeLine s (utf8 "BASE " ++ Text.angled base) else s
  | none => s

/-- The declared entries, longer labels first, else in order of declaration. -/
def orderedEntries (ns : Namespaces) : List (Text × Text) :=
  ns.entries.mergeSort fun a b => b.1.length ≤ a.1.length

/-- A written query without the declarations of a namespace map and with its names replaced. -/
def withoutPrefixes (ns : Namespaces) (s : Text) : Text :=
  (orderedEntries ns).foldl
    (fun acc entry => replaceNames entry.1 (removeDeclarations ns.base entry acc)) s

end Normal

def QueryUnit.normalText (unit : QueryUnit) : Text :=
  Text.collapseLines (Normal.withoutPrefixes unit.namespaces unit.write)

/-- The number of code points of the normalized text. -/
def QueryUnit.normalLength (unit : QueryUnit) : Nat := Text.codePoints unit.normalText

end SparqlMetrics
