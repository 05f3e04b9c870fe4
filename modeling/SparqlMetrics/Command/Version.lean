import SparqlMetrics.Text.Basic

/-!
# Version

The version of the program and the state of its sources.
-/
namespace SparqlMetrics

structure Version where
  number : String
  revision : String
  modified : Bool := false
  deriving DecidableEq, Repr

namespace Version

def current : Version := { number := "0.1.0", revision := "unknown" }

def write (v : Version) : Text :=
  utf8 v.number ++ utf8 " (" ++ utf8 v.revision ++ utf8 (if v.modified then "-dirty)" else ")")

end Version

end SparqlMetrics
