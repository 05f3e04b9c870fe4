import SparqlMetrics.Text.Basic

/-!
# Tokens

A query text is read as a sequence of tokens. A lexeme is what a token stands for, with its decoded
text: an IRI reference has lost its angle brackets, a string its quotes and escapes, a variable its
sigil and a blank node label its `_:`. A token is a lexeme with the byte offsets of its source. The
last token of a text is the end of the input or a fault of the lexical grammar.
-/
namespace SparqlMetrics

inductive Keyword where
  | BASE | PREFIX | SELECT | DISTINCT | REDUCED | AS | CONSTRUCT | DESCRIBE | ASK | FROM | NAMED
  | WHERE | ORDER | BY | ASC | DESC | LIMIT | OFFSET | GROUP | HAVING | VALUES | UNDEF
  | OPTIONAL | UNION | MINUS | GRAPH | SERVICE | SILENT | FILTER | BIND | NOT | IN | EXISTS
  | TRUE | FALSE
  deriving DecidableEq, Repr

namespace Keyword

def all : List Keyword := [
  .BASE, .PREFIX, .SELECT, .DISTINCT, .REDUCED, .AS, .CONSTRUCT, .DESCRIBE, .ASK, .FROM, .NAMED,
  .WHERE, .ORDER, .BY, .ASC, .DESC, .LIMIT, .OFFSET, .GROUP, .HAVING, .VALUES, .UNDEF,
  .OPTIONAL, .UNION, .MINUS, .GRAPH, .SERVICE, .SILENT, .FILTER, .BIND, .NOT, .IN, .EXISTS,
  .TRUE, .FALSE]

def name : Keyword → String
  | .BASE => "BASE"
  | .PREFIX => "PREFIX"
  | .SELECT => "SELECT"
  | .DISTINCT => "DISTINCT"
  | .REDUCED => "REDUCED"
  | .AS => "AS"
  | .CONSTRUCT => "CONSTRUCT"
  | .DESCRIBE => "DESCRIBE"
  | .ASK => "ASK"
  | .FROM => "FROM"
  | .NAMED => "NAMED"
  | .WHERE => "WHERE"
  | .ORDER => "ORDER"
  | .BY => "BY"
  | .ASC => "ASC"
  | .DESC => "DESC"
  | .LIMIT => "LIMIT"
  | .OFFSET => "OFFSET"
  | .GROUP => "GROUP"
  | .HAVING => "HAVING"
  | .VALUES => "VALUES"
  | .UNDEF => "UNDEF"
  | .OPTIONAL => "OPTIONAL"
  | .UNION => "UNION"
  | .MINUS => "MINUS"
  | .GRAPH => "GRAPH"
  | .SERVICE => "SERVICE"
  | .SILENT => "SILENT"
  | .FILTER => "FILTER"
  | .BIND => "BIND"
  | .NOT => "NOT"
  | .IN => "IN"
  | .EXISTS => "EXISTS"
  | .TRUE => "TRUE"
  | .FALSE => "FALSE"

/-- The keyword with a given capital spelling. -/
def ofCapitals? (capitals : Text) : Option Keyword :=
  all.find? fun k => utf8 k.name == capitals

end Keyword

inductive Symbol where
  | lbrace | rbrace | lparen | rparen | lbracket | rbracket | comma | semicolon | dot | star
  | slash | pipe | caret | doubleCaret | plus | minus | bang | question | equal | notEqual
  | less | lessEqual | greater | greaterEqual | andAnd | orOr
  deriving DecidableEq, Repr

namespace Symbol

def spelling : Symbol → String
  | .lbrace => "\x7b"
  | .rbrace => "\x7d"
  | .lparen => "("
  | .rparen => ")"
  | .lbracket => "["
  | .rbracket => "]"
  | .comma => ","
  | .semicolon => ";"
  | .dot => "."
  | .star => "*"
  | .slash => "/"
  | .pipe => "|"
  | .caret => "^"
  | .doubleCaret => "^^"
  | .plus => "+"
  | .minus => "-"
  | .bang => "!"
  | .question => "?"
  | .equal => "="
  | .notEqual => "!="
  | .less => "<"
  | .lessEqual => "<="
  | .greater => ">"
  | .greaterEqual => ">="
  | .andAnd => "&&"
  | .orOr => "||"

def text (s : Symbol) : Text := utf8 s.spelling

/-- The marks that are one byte and open no longer mark or lexeme. -/
def plain : List Symbol := [
  .lbrace, .rbrace, .lparen, .rparen, .lbracket, .rbracket, .comma, .semicolon, .dot, .star,
  .slash, .plus, .minus, .equal]

/-- The mark that a byte is on its own, whatever follows it. -/
def ofByte? (b : Byte) : Option Symbol := plain.find? fun s => s.text == [b]

end Symbol

inductive NumberKind where
  | integer | decimal | double
  deriving DecidableEq, Repr

inductive LexicalFault where
  | unexpectedByte (found : Byte)
  | unterminatedString
  | badCodePointEscape
  | badEscape (found : Byte)
  | badLanguageTag
  | emptyBlankNodeLabel
  deriving DecidableEq, Repr

def LexicalFault.message : LexicalFault → Text
  | .unexpectedByte found => utf8 "Unexpected character '" ++ [found, Byte.apostrophe]
  | .unterminatedString => utf8 "Unterminated string literal"
  | .badCodePointEscape => utf8 "Invalid unicode escape in string literal"
  | .badEscape found => utf8 "Invalid escape sequence \\" ++ [found]
  | .badLanguageTag => utf8 "Invalid language tag"
  | .emptyBlankNodeLabel => utf8 "Blank node label expected after _:"

inductive Lexeme where
  /-- An IRI reference, absolute or relative. -/
  | iri (reference : Text)
  /-- A name under a declared namespace, cut at its first colon. -/
  | prefixedName (label localName : Text)
  | blankNodeLabel (label : Text)
  | variableName (name : Text)
  /-- A string; a long one was written with three quotes. -/
  | string (value : Text) (long : Bool)
  | number (kind : NumberKind) (digits : Text)
  | languageTag (tag : Text)
  | identifier (name : Text)
  /-- A keyword as it was spelled. -/
  | keyword (k : Keyword) (spelled : Text)
  | symbol (s : Symbol)
  | endOfInput
  | invalid (fault : LexicalFault)
  deriving DecidableEq, Repr

namespace Lexeme

def text : Lexeme → Text
  | .iri reference => reference
  | .prefixedName label localName => label ++ Byte.colon :: localName
  | .blankNodeLabel label => label
  | .variableName name => name
  | .string value _ => value
  | .number _ digits => digits
  | .languageTag tag => tag
  | .identifier name => name
  | .keyword _ spelled => spelled
  | .symbol s => s.text
  | .endOfInput => []
  | .invalid fault => fault.message

/-- What a lexeme is called in a message. -/
def describe : Lexeme → Text
  | .iri _ => utf8 "IRI"
  | .prefixedName _ _ => utf8 "prefixed name"
  | .blankNodeLabel _ => utf8 "blank node"
  | .variableName _ => utf8 "variable"
  | .string _ _ => utf8 "string literal"
  | .number _ _ => utf8 "number"
  | .languageTag _ => utf8 "language tag"
  | .identifier _ => utf8 "identifier"
  | .symbol .lbrace => utf8 "'\x7b'"
  | .symbol .rbrace => utf8 "'\x7d'"
  | .symbol .lparen => utf8 "'('"
  | .symbol .rparen => utf8 "')'"
  | .symbol .lbracket => utf8 "'['"
  | .symbol .rbracket => utf8 "']'"
  | .symbol .comma => utf8 "','"
  | .symbol .semicolon => utf8 "';'"
  | .symbol .dot => utf8 "'.'"
  | .symbol _ => utf8 "token"
  | .keyword _ _ => utf8 "token"
  | .endOfInput => utf8 "end of input"
  | .invalid _ => utf8 "invalid token"

def keyword? : Lexeme → Option Keyword
  | .keyword k _ => some k
  | _ => none

def isNumber : Lexeme → Bool
  | .number _ _ => true
  | _ => false

/-- Whether a lexeme is the identifier `a`, which stands for the type property. -/
def isTypeWord : Lexeme → Bool
  | .identifier name => name == [0x61]
  | _ => false

/-- Whether nothing follows a lexeme: the end of the input or a fault. -/
def isTerminal : Lexeme → Bool
  | .endOfInput => true
  | .invalid _ => true
  | _ => false

end Lexeme

/-- A lexeme with the byte offsets of its first byte and of the byte behind its last one. -/
structure Token where
  lexeme : Lexeme
  start : Nat
  stop : Nat
  deriving DecidableEq, Repr

end SparqlMetrics
