import SparqlMetrics.Text.Basic

/-!
# Terms

The terms of a pattern: IRIs, literals, blank nodes and variables, each with the place it was
written at. IRIs are absolute: relative references and prefixed names are resolved when a query is
read.
-/
namespace SparqlMetrics

/-- A range of byte offsets, the second one behind the last byte. -/
structure Span where
  start : Nat := 0
  stop : Nat := 0
  deriving DecidableEq, Repr

/-- A literal. A short one is a number or a truth value written without quotes. -/
structure Literal where
  value : Text
  language : Option Text := none
  datatype : Option Text := none
  short : Bool := false
  deriving DecidableEq, Repr

inductive Node where
  | iri (value : Text)
  | literal (l : Literal)
  | blank (label : Text)
  | var (name : Text)
  deriving DecidableEq, Repr

namespace Node

/-- IRIs and literals are the resources that metrics count. -/
def isResource : Node → Bool
  | .iri _ => true
  | .literal _ => true
  | _ => false

def isIri : Node → Bool
  | .iri _ => true
  | _ => false

def varName? : Node → Option Text
  | .var name => some name
  | _ => none

end Node

structure Term where
  node : Node
  span : Span := {}
  deriving DecidableEq, Repr

/-- A triple pattern whose predicate is a single term. -/
structure Triple where
  subject : Term
  predicate : Term
  object : Term
  span : Span := {}
  deriving DecidableEq, Repr

/-- A table of values: its columns and its rows, where a missing cell is undefined. -/
structure InlineData where
  columns : List Text := []
  rows : List (List (Option Term)) := []
  span : Span := {}
  deriving DecidableEq, Repr

end SparqlMetrics
