import SparqlMetrics.Text.Encoding
import SparqlMetrics.Token.Basic

/-!
# Reading tokens

A scanner stands between two bytes of a text. It passes over white space and comments, reads one
lexeme and stands behind it. Each reading function takes the text ahead and returns what is left of
it, so a place is known by the length of what is left: in a text of `n` bytes the remainder `r`
begins at offset `n - r.length`. A lexical fault is final: the scanner answers with it from then on.

The lemmas say that no reading function returns more than it was given, and that every lexeme other
than the end of the input takes at least one byte.
-/
namespace SparqlMetrics

namespace Lexeme

/-- What is left behind white space and comments; a comment runs to the end of its line. -/
def skipGap (inComment : Bool) : Text → Text
  | [] => []
  | b :: rest =>
    if inComment then skipGap (b != Byte.newline) rest
    else if b.isSpace then skipGap false rest
    else if b == Byte.hash then skipGap true rest
    else b :: rest

/-- A byte that cannot stand in an IRI reference: controls, space and `<"{}|^` with the backquote
and the backslash. The closing bracket is not among them. -/
def isIriForbidden (b : Byte) : Bool :=
  b ≤ Byte.space || b == Byte.less || b == Byte.quote || b == Byte.lbrace || b == Byte.rbrace ||
    b == Byte.pipe || b == Byte.caret || b == Byte.backquote || b == Byte.backslash

/-- The IRI reference ahead and the text behind its closing bracket, if the bracket before it opens
a reference at all. -/
def iriReference? : Text → Option (Text × Text)
  | [] => none
  | b :: rest =>
    if b == Byte.greater then some ([], rest)
    else if isIriForbidden b then none
    else (iriReference? rest).map fun (reference, behind) => (b :: reference, behind)

/-- A fault with the text ahead of the place where it is reported. -/
structure Fault where
  cause : LexicalFault
  ahead : Text

/-- Where a string scanner stands: between characters, behind a backslash, or inside the digits of
a code point escape, of which some are still owed. -/
inductive StringState where
  | plain
  | escaped
  | codePoint (owed value : Nat)

/-- The byte that a one-letter escape stands for. -/
def simpleEscape? (b : Byte) : Option Byte :=
  if b == 0x74 then some Byte.tab
  else if b == 0x6E then some Byte.newline
  else if b == 0x72 then some Byte.carriageReturn
  else if b == 0x62 then some Byte.backspace
  else if b == 0x66 then some Byte.formFeed
  else if b == Byte.quote || b == Byte.apostrophe || b == Byte.backslash then some b
  else none

/-- Puts decoded bytes in front of a decoded string. -/
def addBytes (bytes : Text) : Except Fault (Text × Text) → Except Fault (Text × Text)
  | .ok (value, behind) => .ok (bytes ++ value, behind)
  | .error fault => .error fault

/-- Whether a long string closes here: two more quotes follow, and no third one. A longer run of
quotes closes on its last three. -/
def closesLong (mark : Byte) : Text → Bool
  | a :: b :: rest => a == mark && b == mark && rest.head? != some mark
  | _ => false

/-- The decoded rest of a string opened with a quote mark, and the text behind its closing quotes.
`opening` is the text from the opening quote on, where a missing end is reported. -/
def stringBody (opening : Text) (mark : Byte) (long : Bool) :
    StringState → Text → Except Fault (Text × Text)
  | .codePoint _ _, [] => .error ⟨.badCodePointEscape, []⟩
  | _, [] => .error ⟨.unterminatedString, opening⟩
  | .plain, b :: rest =>
    if b == mark then
      if long then
        if closesLong mark rest then .ok ([], rest.drop 2)
        else addBytes [b] (stringBody opening mark long .plain rest)
      else .ok ([], rest)
    else if !long && (b == Byte.newline || b == Byte.carriageReturn) then
      .error ⟨.unterminatedString, opening⟩
    else if b == Byte.backslash then stringBody opening mark long .escaped rest
    else addBytes [b] (stringBody opening mark long .plain rest)
  | .escaped, b :: rest =>
    match simpleEscape? b with
    | some byte => addBytes [byte] (stringBody opening mark long .plain rest)
    | none =>
      if b == 0x75 then stringBody opening mark long (.codePoint 4 0) rest
      else if b == 0x55 then stringBody opening mark long (.codePoint 8 0) rest
      else .error ⟨.badEscape b, Byte.backslash :: b :: rest⟩
  | .codePoint owed value, b :: rest =>
    if b.isHexDigit then
      let value := value * 16 + b.hexValue
      if owed ≤ 1 then
        addBytes (Text.ofCodePoint value) (stringBody opening mark long .plain rest)
      else stringBody opening mark long (.codePoint (owed - 1) value) rest
    else .error ⟨.badCodePointEscape, b :: rest⟩

/-- Reads a string behind its first quote mark; three marks open a long string. -/
def readString (mark : Byte) (rest : Text) : Except Fault (Lexeme × Text) :=
  let long := [mark, mark].isPrefixOf rest
  let inner := if long then rest.drop 2 else rest
  match stringBody (mark :: rest) mark long .plain inner with
  | .ok (value, behind) => .ok (.string value long, behind)
  | .error fault => .error fault

/-- Reads the name of a variable behind its sigil. -/
def readVariable? (rest : Text) : Option (Lexeme × Text) :=
  let name := rest.takeWhile Byte.isNameByte
  if name.isEmpty then none else some (.variableName name, rest.dropWhile Byte.isNameByte)

def isTagByte (b : Byte) : Bool := b.isAlnum || b == Byte.hyphen

/-- Reads a language tag behind its sign; it opens with a letter. -/
def readLanguageTag (rest : Text) : Except Fault (Lexeme × Text) :=
  let tag := rest.takeWhile isTagByte
  if (tag.head?.map Byte.isAlpha).getD false then
    .ok (.languageTag tag, rest.dropWhile isTagByte)
  else .error ⟨.badLanguageTag, Byte.atSign :: rest⟩

/-- The local part of a prefixed name and the text behind it. A backslash is dropped and the byte
behind it kept, an escaped pair of hexadecimal digits stays as written, and dots at the end are
given back. In a blank node label neither escapes nor colons belong to the name. -/
def localName (blank : Bool) : Text → Text × Text
  | [] => ([], [])
  | b :: rest =>
    if b == Byte.backslash && !blank then
      match rest with
      | escaped :: rest =>
        let (name, behind) := localName blank rest
        (escaped :: name, behind)
      | [] => ([], [b])
    else if b == Byte.percent && !blank then
      match rest with
      | high :: low :: rest' =>
        if high.isHexDigit && low.isHexDigit then
          let (name, behind) := localName blank rest'
          (b :: high :: low :: name, behind)
        else ([], b :: rest)
      | _ => ([], b :: rest)
    else if b.isNameByte || b == Byte.hyphen || (b == Byte.colon && !blank) then
      let (name, behind) := localName blank rest
      (b :: name, behind)
    else if b == Byte.dot then
      match localName blank rest with
      | ([], _) => ([], b :: rest)
      | (name, behind) => (b :: name, behind)
    else ([], b :: rest)

/-- Reads a prefixed name or a blank node label behind its first colon. -/
def readPrefixedName (label rest : Text) : Except Fault (Lexeme × Text) :=
  if label == [Byte.underscore] then
    match localName true rest with
    | ([], _) => .error ⟨.emptyBlankNodeLabel, label ++ Byte.colon :: rest⟩
    | (name, behind) => .ok (.blankNodeLabel name, behind)
  else
    let (name, behind) := localName false rest
    .ok (.prefixedName label name, behind)

/-- A byte that may stand in the label of a prefixed name. -/
def isLabelByte (b : Byte) : Bool := b.isNameByte || b == Byte.hyphen || b == Byte.dot

/-- The keyword or the identifier that a word spells. -/
def ofWord (spelled : Text) : Lexeme :=
  match Keyword.ofCapitals? spelled.toUpper with
  | some k => .keyword k spelled
  | none => .identifier spelled

/-- Reads a prefixed name, a blank node label, a keyword or an identifier. A word is a label when a
colon follows it and no dot stands before the colon. -/
def readWord (s : Text) : Except Fault (Lexeme × Text) :=
  let label := s.takeWhile isLabelByte
  let behind := s.dropWhile isLabelByte
  if behind.head? == some Byte.colon && label.getLast? != some Byte.dot then
    readPrefixedName label behind.tail
  else .ok (ofWord (s.takeWhile Byte.isNameByte), s.dropWhile Byte.isNameByte)

/-- The fraction ahead, with its point, if a digit follows the point. -/
def fraction? : Text → Option (Text × Text)
  | [] => none
  | point :: digits =>
    let run := digits.takeWhile Byte.isDigit
    if point == Byte.dot && !run.isEmpty then
      some (point :: run, digits.dropWhile Byte.isDigit)
    else none

/-- The sign ahead, or nothing. -/
def exponentSign (s : Text) : Text × Text :=
  if s.head? = some Byte.plus || s.head? = some Byte.hyphen then (s.take 1, s.drop 1) else ([], s)

/-- The exponent ahead, with its letter and sign, if it has a digit. -/
def exponent? : Text → Option (Text × Text)
  | [] => none
  | e :: rest =>
    if e == 0x65 || e == 0x45 then
      let (sign, digits) := exponentSign rest
      let run := digits.takeWhile Byte.isDigit
      if run.isEmpty then none else some (e :: sign ++ run, digits.dropWhile Byte.isDigit)
    else none

/-- Reads an unsigned number; a fraction makes it a decimal, an exponent a double. -/
def readNumber (s : Text) : Lexeme × Text :=
  let digits := s.takeWhile Byte.isDigit
  let rest := s.dropWhile Byte.isDigit
  let (kind, digits, rest) :=
    match fraction? rest with
    | some (fraction, rest) => (NumberKind.decimal, digits ++ fraction, rest)
    | none => (NumberKind.integer, digits, rest)
  match exponent? rest with
  | some (exponent, rest) => (.number .double (digits ++ exponent), rest)
  | none => (.number kind digits, rest)

/-- Reads a mark of two bytes when the second one follows, else the mark of the first byte. -/
def markOf (second : Byte) (both single : Symbol) (rest : Text) : Lexeme × Text :=
  if rest.head? = some second then (.symbol both, rest.tail) else (.symbol single, rest)

/-- Reads a mark that needs at most the byte behind it and is never a fault. -/
def readMark? (b : Byte) (rest : Text) : Option (Lexeme × Text) :=
  if b == Byte.caret then some (markOf Byte.caret .doubleCaret .caret rest)
  else if b == Byte.pipe then some (markOf Byte.pipe .orOr .pipe rest)
  else if b == Byte.bang then some (markOf Byte.equals .notEqual .bang rest)
  else if b == Byte.greater then some (markOf Byte.equals .greaterEqual .greater rest)
  else (Symbol.ofByte? b).map fun s => (.symbol s, rest)

def unexpected (b : Byte) (rest : Text) : Except Fault (Lexeme × Text) :=
  .error ⟨.unexpectedByte b, b :: rest⟩

/-- Reads an IRI reference behind its bracket, or a comparison when the bracket opens none. -/
def readLess (rest : Text) : Lexeme × Text :=
  match iriReference? rest with
  | some (reference, behind) => (.iri reference, behind)
  | none => markOf Byte.equals .lessEqual .less rest

/-- Reads a lexeme that is told by a sign in front of it. -/
def readSigned? (b : Byte) (rest : Text) : Option (Except Fault (Lexeme × Text)) :=
  if b == Byte.less then some (.ok (readLess rest))
  else if b == Byte.question then
    some (.ok ((readVariable? rest).getD (.symbol .question, rest)))
  else if b == Byte.dollar then
    some (((readVariable? rest).map .ok).getD (unexpected b rest))
  else if b == Byte.ampersand then
    some (if rest.head? = some b then .ok (.symbol .andAnd, rest.tail) else unexpected b rest)
  else if b == Byte.atSign then some (readLanguageTag rest)
  else if b == Byte.apostrophe || b == Byte.quote then some (readString b rest)
  else if b == Byte.colon then some (readPrefixedName [] rest)
  else none

/-- Reads a number or a word. -/
def readRun (b : Byte) (rest : Text) : Except Fault (Lexeme × Text) :=
  if b.isDigit then .ok (readNumber (b :: rest))
  else if b.isNameStart then readWord (b :: rest)
  else unexpected b rest

/-- Reads the lexeme that a byte opens; the byte is neither white space nor the start of a
comment. -/
def readFrom (b : Byte) (rest : Text) : Except Fault (Lexeme × Text) :=
  match readMark? b rest with
  | some found => .ok found
  | none => (readSigned? b rest).getD (readRun b rest)

/-- Reads the lexeme that opens a text, which begins with neither white space nor a comment. -/
def read : Text → Except Fault (Lexeme × Text)
  | [] => .ok (.endOfInput, [])
  | b :: rest => readFrom b rest

end Lexeme

/-- A scanner in a text of a given length: what is ahead of it, or the fault it met. -/
structure Scanner where
  length : Nat
  ahead : Text
  fault : Option Token := none

namespace Scanner

def ofText (s : Text) : Scanner := { length := s.length, ahead := s }

/-- The next token and the scanner behind it. -/
def next (scanner : Scanner) : Token × Scanner :=
  match scanner.fault with
  | some token => (token, scanner)
  | none =>
    let ahead := Lexeme.skipGap false scanner.ahead
    match Lexeme.read ahead with
    | .ok (lexeme, behind) =>
      (⟨lexeme, scanner.length - ahead.length, scanner.length - behind.length⟩,
        { scanner with ahead := behind })
    | .error ⟨cause, place⟩ =>
      let position := scanner.length - place.length
      let token : Token := ⟨.invalid cause, position, position⟩
      (token, { scanner with ahead := ahead, fault := some token })

end Scanner

end SparqlMetrics
