import SparqlMetrics.Algebra.Term

/-!
# Property paths

A path is a step, a path with an operator, or two paths in sequence or as alternatives. Reading a
query builds sequences and alternatives to the left: the newest part is the right child. A negated
set holds alternatives of steps and inverse steps, or, when it is written empty, a placeholder step
that names nothing.
-/
namespace SparqlMetrics

inductive Repetition where
  | zeroOrMore | oneOrMore | zeroOrOne
  deriving DecidableEq, Repr

inductive PathJoin where
  | sequence | alternative
  deriving DecidableEq, Repr

inductive Path where
  | step (predicate : Term)
  | inverse (inner : Path)
  | repeated (times : Repetition) (inner : Path)
  | negated (inner : Path)
  | join (how : PathJoin) (left right : Path)
  deriving DecidableEq, Repr

namespace Path

/-- The step that an empty negated set holds. -/
def placeholder : Path := .step { node := .var [] }

/-- Whether a path is a step along a given IRI. -/
def isIriStep : Path → Bool
  | .step predicate => predicate.node.isIri
  | _ => false

def isJoin : Path → Bool
  | .join _ _ _ => true
  | _ => false

end Path

end SparqlMetrics
