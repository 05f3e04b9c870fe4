import SparqlMetrics.Grammar.Level
import SparqlMetrics.Grammar.Term

/-!
# The grammar of expressions

Disjunction binds weakest, then conjunction, one comparison or membership test, sums, products and
prefix operators. Comparisons do not chain. An operand is one nesting level further in than the
expression it belongs to, and so is what stands inside its brackets. The items of a membership list
stay at the level of their expression; such lists nest no deeper than there are tokens left.
-/
namespace SparqlMetrics.Grammar

open SparqlMetrics.Parser

/-- A binary node that ends before the current token. -/
def binaryNode (op : Text) (left right : Expression) : Parser Expression := do
  pure (.binary op [left, right] ⟨left.span.start, ← position⟩)

/-- Extends an expression by an operator at the current token and an operand behind it. -/
def extendBy (isOperator : Lexeme → Bool) (operand : Parser Expression) (left : Expression) :
    Parser (Option Expression) := do
  let here ← lexeme
  if isOperator here then
    skip
    let right ← operand
    some <$> binaryNode here.text left right
  else pure none

/-- Reads operands joined to the left by operators of one class. -/
def chain (isOperator : Lexeme → Bool) (operand : Parser Expression) : Parser Expression := do
  let first ← operand
  repeatFrom (extendBy isOperator operand) first

def isProductSign (here : Lexeme) : Bool := here == .symbol .star || here == .symbol .slash

def isSumSign (here : Lexeme) : Bool := here == .symbol .plus || here == .symbol .minus

def isComparison (here : Lexeme) : Bool :=
  here == .symbol .equal || here == .symbol .notEqual || here == .symbol .less ||
    here == .symbol .lessEqual || here == .symbol .greater || here == .symbol .greaterEqual

/-- Reads a sum of products of operands. -/
def sum (level : Level) : Parser Expression :=
  chain isSumSign (chain isProductSign level.operand)

def moreExpressions (expression : Parser Expression) : Parser (List Expression) :=
  many do
    if ← tryMark .comma then some <$> expression else pure none

/-- Reads expressions separated by commas, or none before a closing bracket. -/
def expressionList (expression : Parser Expression) : Parser (List Expression) := do
  if ← isAt .rparen then pure []
  else
    let first ← expression
    return first :: (← moreExpressions expression)

/-- The membership test that opens at the current token: negated, plain or none. -/
def membership? : Parser (Option Bool) := do
  if ← isAtKeyword .IN then pure (some false)
  else if (← isAtKeyword .NOT) && (← followingLexeme).keyword? == some .IN then pure (some true)
  else pure none

/-- Reads the list of a membership test whose left side is known. -/
def memberList (expression : Parser Expression) (negated : Bool) (left : Expression) :
    Parser Expression := do
  if negated then skip
  skip
  mark .lparen .openIn
  let items ← expressionList expression
  mark .rparen .closeIn
  pure (.member negated (left :: items) ⟨left.span.start, ← position⟩)

/-- Reads a sum and at most one comparison or membership test behind it. The items of a membership
list are whole expressions. -/
def relational (level : Level) (expression : Parser Expression) : Parser Expression := do
  let left ← sum level
  match ← extendBy isComparison (sum level) left with
  | some comparison => pure comparison
  | none =>
    match ← membership? with
    | some negated => memberList expression negated left
    | none => pure left

/-- Reads an expression whose membership lists nest at most a given number of times. -/
def expressionUpTo (level : Level) : Nat → Parser Expression
  | 0 => expected .expression
  | bound + 1 =>
    chain (· == .symbol .orOr)
      (chain (· == .symbol .andAnd) (relational level (expressionUpTo level bound)))

def expression (level : Level) : Parser Expression := do
  expressionUpTo level ((← remaining) + 1)

def bracketedExpression (level : Level) : Parser Expression := do
  mark .lparen .openExpression
  let inside ← expression level
  mark .rparen .closeExpression
  pure inside

def aggregateNames : List String :=
  ["COUNT", "SUM", "MIN", "MAX", "AVG", "SAMPLE", "GROUP_CONCAT"]

def isAggregateName (name : Text) : Bool := aggregateNames.any fun a => utf8 a == name

/-- Reads the arguments of a call behind its opening bracket, and the closing one. -/
def callArguments (level : Level) : Parser (List Expression) := do
  let args ← expressionList (expression level)
  mark .rparen .closeFunctionCall
  pure args

def builtinCall (level : Level) (name : Text) (start : Nat) : Parser Expression := do
  mark .lparen .openFunctionCall
  let args ← callArguments level
  pure (.call (.builtin name) false args ⟨start, ← position⟩)

/-- Reads the argument of an aggregate: a star for a count, or one expression. -/
def aggregateArgument (level : Level) (name : Text) : Parser (Bool × List Expression) := do
  if name == utf8 "COUNT" && (← isAt .star) then
    skip
    pure (true, [])
  else
    let arg ← expression level
    pure (false, [arg])

/-- Reads the separator of a concatenation, if there is one. -/
def separator? (name : Text) : Parser (Option Text) := do
  if name == utf8 "GROUP_CONCAT" && (← isAt .semicolon) then
    skip
    match ← lexeme with
    | .identifier word =>
      if word.toUpper == utf8 "SEPARATOR" then skip else expected .separatorName
    | _ => expected .separatorName
    mark .equal .equalAfterSeparator
    match ← lexeme with
    | .string value _ =>
      skip
      pure (some value)
    | _ => expected .separatorString
  else pure none

def aggregateCall (level : Level) (name : Text) (start : Nat) : Parser Expression := do
  mark .lparen .openAggregate
  let distinct ← tryKeyword .DISTINCT
  let (star, args) ← aggregateArgument level name
  let separator ← separator? name
  mark .rparen .closeAggregate
  pure (.aggregate name distinct star args separator ⟨start, ← position⟩)

/-- Reads a call by a bare name. -/
def namedCall (level : Level) (spelled : Text) : Parser Expression := do
  let start ← position
  if (← followingLexeme) == .symbol .lparen then
    skip
    if isAggregateName spelled.toUpper then aggregateCall level spelled.toUpper start
    else builtinCall level spelled.toUpper start
  else fail (.unknownIdentifier spelled)

/-- Reads an IRI, or the call of the function it names when a bracket follows. -/
def iriExpression (level : Level) : Parser Expression := do
  let start ← position
  let iri ← iriTerm level.namespaces
  if ← tryMark .lparen then
    let distinct ← tryKeyword .DISTINCT
    let args ← callArguments level
    pure (.call (.iri iri) distinct args ⟨start, ← position⟩)
  else pure (.term iri ⟨start, ← position⟩)

/-- Reads the group of an EXISTS test behind the keyword. -/
def existsTest (level : Level) (negated : Bool) (start : Nat) : Parser Expression := do
  skip
  let pattern ← level.group .group
  pure (.exists negated (some pattern) ⟨start, ← position⟩)

/-- Reads a variable or a literal as an expression. -/
def termExpression (level : Level) : Parser Expression := do
  let start ← position
  let t ← varOrTerm level.namespaces
  pure (.term t ⟨start, ← position⟩)

/-- Reads an expression that begins with no prefix operator and ends with its own last token. -/
def primaryExpression (level : Level) : Parser Expression := do
  let start ← position
  match ← lexeme with
  | .symbol .lparen => bracketedExpression level
  | .keyword .NOT _ =>
    skip
    if ← isAtKeyword .EXISTS then existsTest level true start else expected .existsAfterNot
  | .keyword .EXISTS _ => existsTest level false start
  | .identifier name => namedCall level name
  | .iri _ => iriExpression level
  | .prefixedName _ _ => iriExpression level
  | .variableName _ => termExpression level
  | .string _ _ => termExpression level
  | .number _ _ => termExpression level
  | .keyword .TRUE _ => termExpression level
  | .keyword .FALSE _ => termExpression level
  | _ => expected .expression

def isPrefixOperator (here : Lexeme) : Bool := here == .symbol .bang || isSumSign here

/-- Reads an operand with its prefix operators, given the level inside it. -/
def operandWithin (inner : Level) : Parser Expression := do
  let start ← position
  let here ← lexeme
  if isPrefixOperator here then
    skip
    let argument ← inner.operand
    pure (.unary here.text [argument] ⟨start, ← position⟩)
  else primaryExpression inner

/-- Whether a constraint opens at a lexeme with a given one behind it. -/
def startsConstraint (here following : Lexeme) : Bool :=
  match here with
  | .symbol .lparen => true
  | .keyword .EXISTS _ => true
  | .keyword .NOT _ => following.keyword? == some .EXISTS
  | .identifier _ => following == .symbol .lparen
  | .iri _ => following == .symbol .lparen
  | .prefixedName _ _ => following == .symbol .lparen
  | _ => false

/-- Whether a constraint opens at the current token. -/
def atConstraint : Parser Bool := do
  return startsConstraint (← lexeme) (← followingLexeme)

/-- Reads a constraint: an expression between brackets, a call or an EXISTS test. -/
def constraint (level : Level) : Parser Expression := do
  if ← atConstraint then primaryExpression level else expected .constraint

end SparqlMetrics.Grammar
