import SparqlMetrics.Iri

/-!
# Namespaces

The declarations of a prologue: namespaces under their labels, in order of declaration, and the
base. The empty label is that of the default namespace. Declaring a label again replaces its
namespace and keeps its place.
-/
namespace SparqlMetrics

structure Namespaces where
  entries : List (Text × Text) := []
  base : Option Text := none
  deriving DecidableEq, Repr

namespace Namespaces

def find? (label : Text) (ns : Namespaces) : Option Text :=
  (ns.entries.find? fun entry => entry.1 == label).map (·.2)

/-- Entries with the namespace of a label set. -/
def setEntry (label iri : Text) : List (Text × Text) → List (Text × Text)
  | [] => [(label, iri)]
  | entry :: rest =>
    if entry.1 = label then (label, iri) :: rest else entry :: setEntry label iri rest

def declare (label iri : Text) (ns : Namespaces) : Namespaces :=
  { ns with entries := setEntry label iri ns.entries }

/-- The absolute IRI of a reference; a relative one needs a base. -/
def resolve? (reference : Text) (ns : Namespaces) : Option Text :=
  if Iri.hasScheme reference then some reference
  else ns.base.map fun base => Iri.resolve base reference

/-- The IRI of a prefixed name whose label is declared. -/
def expand? (label localName : Text) (ns : Namespaces) : Option Text :=
  (ns.find? label).map fun iri => iri ++ localName

theorem find?_setEntry_self (label iri : Text) (entries : List (Text × Text)) :
    (setEntry label iri entries).find? (fun entry => entry.1 == label) = some (label, iri) := by
  induction entries with
  | nil => simp [setEntry]
  | cons entry rest ih =>
    by_cases same : entry.1 = label
    · simp [setEntry, same]
    · simp [setEntry, same, ih]

theorem find?_declare_self (label iri : Text) (ns : Namespaces) :
    (ns.declare label iri).find? label = some iri := by
  simp [find?, declare, find?_setEntry_self]

end Namespaces

end SparqlMetrics
