import SparqlMetrics.Json.Reader
import SparqlMetrics.Json.Writer

/-!
# A standard JSON library

Reading and writing as the standard has them: a text is UTF-8, which a byte order mark may open, and
a value is written when its strings are UTF-8.
-/
namespace SparqlMetrics

namespace Json

def isUnicode (s : Text) : Bool := ByteArray.validateUTF8 ⟨s.toArray⟩

def byteOrderMark : Text := [0xEF, 0xBB, 0xBF]

def parse? (s : Text) : Option Json :=
  let body := (behindWord? byteOrderMark s).getD s
  if isUnicode body then read? body else none

def dump? (indent : Option Nat) (x : Json) : Option Text :=
  if x.strings.all isUnicode then some (write indent 0 x) else none

/-- The library that keeps to the standard. -/
@[reducible] def standard : JsonLibrary := ⟨parse?, dump?⟩

end Json

end SparqlMetrics
