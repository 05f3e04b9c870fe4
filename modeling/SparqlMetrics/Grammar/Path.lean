import SparqlMetrics.Grammar.Level
import SparqlMetrics.Grammar.Term

/-!
# The grammar of property paths

Alternatives bind weakest, then sequences, then inverses, then the repetition marks. A verb that is
a variable or a single step is a term; any other is a path.
-/
namespace SparqlMetrics.Grammar

open SparqlMetrics.Parser

/-- Reads a step along an IRI or along the type property. -/
def iriStep (ns : Namespaces) : Parser Path := do
  let token ← Parser.token
  if token.lexeme.isTypeWord then
    skip
    pure (.step ⟨.iri Iri.rdfType, ⟨token.start, token.stop⟩⟩)
  else .step <$> iriTerm ns

/-- Reads a member of a negated set: a step or an inverse step. -/
def setMember (ns : Namespaces) : Parser Path := do
  if ← tryMark .caret then .inverse <$> iriStep ns else iriStep ns

/-- Joins a path with the one behind a mark, if the mark is there. -/
def joinAfter (s : Symbol) (how : PathJoin) (part : Parser Path) (left : Path) :
    Parser (Option Path) := do
  if ← tryMark s then
    let right ← part
    pure (some (.join how left right))
  else pure none

/-- Reads the alternatives of a negated set up to its closing bracket. -/
def setMembers (ns : Namespaces) : Parser Path := do
  if ← isAt .rparen then pure .placeholder
  else
    let first ← setMember ns
    repeatFrom (joinAfter .pipe .alternative (setMember ns)) first

def negatedSet (ns : Namespaces) : Parser Path := do
  if ← tryMark .lparen then
    let members ← setMembers ns
    mark .rparen .closeNegatedSet
    pure (.negated members)
  else .negated <$> setMember ns

/-- Reads a step, a negated set or a path between brackets. -/
def pathPrimary (level : Level) : Parser Path := do
  match ← lexeme with
  | .symbol .bang =>
    skip
    negatedSet level.namespaces
  | .symbol .lparen => level.pathGroup
  | .iri _ => iriStep level.namespaces
  | .prefixedName _ _ => iriStep level.namespaces
  | here => if here.isTypeWord then iriStep level.namespaces else expected .path

/-- The repetition that a mark stands for. -/
def repetition? : Lexeme → Option Repetition
  | .symbol .star => some .zeroOrMore
  | .symbol .plus => some .oneOrMore
  | .symbol .question => some .zeroOrOne
  | _ => none

def pathElement (level : Level) : Parser Path := do
  let primary ← pathPrimary level
  match repetition? (← lexeme) with
  | some times =>
    skip
    pure (.repeated times primary)
  | none => pure primary

/-- Reads a path element or the inverse of one. -/
def pathPart (level : Level) : Parser Path := do
  if ← tryMark .caret then .inverse <$> pathElement level else pathElement level

def pathSequence (level : Level) : Parser Path := do
  let first ← pathPart level
  repeatFrom (joinAfter .slash .sequence (pathPart level)) first

def path (level : Level) : Parser Path := do
  let first ← pathSequence level
  repeatFrom (joinAfter .pipe .alternative (pathSequence level)) first

/-- Reads a path between round brackets, given the level inside them. -/
def bracketedPath (inner : Level) : Parser Path := do
  skip
  let inside ← path inner
  mark .rparen .closePathGroup
  pure inside

/-- A predicate position: a term or a proper path. -/
inductive Verb where
  | term (t : Term)
  | path (p : Path)
  deriving DecidableEq, Repr

/-- The verb that a path is; a single step is a term. -/
def Verb.ofPath : Path → Verb
  | .step predicate => .term predicate
  | p => .path p

/-- Reads a predicate position. -/
def verb (level : Level) : Parser Verb := do
  match ← lexeme with
  | .variableName _ => .term <$> varOrTerm level.namespaces
  | _ => .ofPath <$> path level

/-- Whether a lexeme opens a predicate position. -/
def startsVerb : Lexeme → Bool
  | .variableName _ => true
  | .iri _ => true
  | .prefixedName _ _ => true
  | .symbol .caret => true
  | .symbol .bang => true
  | .symbol .lparen => true
  | here => here.isTypeWord

end SparqlMetrics.Grammar
