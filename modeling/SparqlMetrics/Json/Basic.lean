import SparqlMetrics.Text.Basic

/-!
# JSON values

A value with its members in the order in which they stand in its text. Reading and writing texts is
the work of a library, which is a class: it may refuse a text, and it may refuse to write a value
whose strings are not UTF-8. Main definitions: `Json`, `JsonLibrary`.
-/
namespace SparqlMetrics

/-- A JSON value. A number is a whole number times a power of ten. -/
inductive Json where
  | null
  | boolean (value : Bool)
  | number (mantissa exponent : Int)
  | string (value : Text)
  | array (items : List Json)
  | object (members : List (Text × Json))

/-- A library that reads and writes JSON texts. -/
class JsonLibrary where
  /-- The value of a text. -/
  parse? (s : Text) : Option Json
  /-- A value in writing, on one line or on lines that are indented by so many spaces a level. -/
  dump? (indent : Option Nat) (x : Json) : Option Text

end SparqlMetrics
