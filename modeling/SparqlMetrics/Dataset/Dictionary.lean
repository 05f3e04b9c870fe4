import SparqlMetrics.Files
import SparqlMetrics.Json.Basic
import SparqlMetrics.Namespaces

/-!
# Prefix dictionaries

The dictionary of a dataset is a JSON object with the namespace of each label; the base has a name of
its own among them. Of members with the same name the last one counts, and the names are taken in
their order, so the first of them without a string is the one that an error names.
-/
namespace SparqlMetrics

inductive DictionaryError where
  | cannotOpen (path : Text)
  | notJson
  | notAnObject
  | notAString (name : Text)
  deriving DecidableEq, Repr

/-- The wording of an error, which ends early at a zero byte of the name. -/
def DictionaryError.message : DictionaryError → Text
  | .cannotOpen path => utf8 "Failed to open file: " ++ path
  | .notJson => utf8 "Prefix dictionary is not valid JSON"
  | .notAnObject => utf8 "Prefix dictionary must be a JSON object"
  | .notAString name =>
    (utf8 "Prefix dictionary value for '" ++ name ++ utf8 "' must be a string").upToZero

namespace Dictionary

/-- The name under which a dictionary has its base. -/
def baseName : Text := utf8 "base"

def ofMembers (members : List (Text × Json)) : TextMap Json :=
  members.foldl (fun map (name, x) => map.alter name x fun _ => x) .empty

def addMember (dictionary : Namespaces) : Text × Json → Except DictionaryError Namespaces
  | (name, .string iri) =>
    .ok (if name = baseName then { dictionary with base := some iri }
      else dictionary.declare name iri)
  | (name, _) => .error (.notAString name)

def ofJson : Json → Except DictionaryError Namespaces
  | .object members => (ofMembers members).entries.foldlM addMember {}
  | _ => .error .notAnObject

variable {m : Type → Type} [Monad m] [MonadFiles m] [JsonLibrary]

def load (path : Text) : m (Except DictionaryError Namespaces) := do
  match ← MonadFiles.readFile path with
  | none => pure (.error (.cannotOpen path))
  | some content =>
    match JsonLibrary.parse? content with
    | none => pure (.error .notJson)
    | some x => pure (ofJson x)

end Dictionary

end SparqlMetrics
