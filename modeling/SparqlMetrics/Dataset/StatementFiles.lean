import SparqlMetrics.Dataset.Update
import SparqlMetrics.Files

/-!
# Statement files

Statements are written into a directory, each into a file named by its number.
-/
namespace SparqlMetrics

inductive StatementFileError where
  | noDirectory (path : Text) (cause : FileError)
  | notWritten (path : Text) (cause : WriteError)
  deriving DecidableEq, Repr

/-- The wording of an error, which ends early at a zero byte of the path. -/
def StatementFileError.message : StatementFileError → Text
  | .noDirectory path cause =>
    (utf8 "Failed to create directory " ++ path ++ utf8 ": " ++ cause.message).upToZero
  | .notWritten path cause => (cause.message path).upToZero

namespace StatementFiles

def pathOf (directory : Text) (number : Nat) : Text :=
  pathAppend directory (Text.ofNat number ++ utf8 ".sparql")

variable {m : Type → Type} [Monad m] [MonadFiles m]

/-- Writes statements from a given number on and returns their paths. -/
def writeFrom (directory : Text) : Nat → List Text → m (Except StatementFileError (List Text))
  | _, [] => pure (.ok [])
  | number, statement :: rest => do
    let path := pathOf directory number
    match ← MonadFiles.writeFile path statement with
    | .error cause => pure (.error (.notWritten path cause))
    | .ok () =>
      match ← writeFrom directory (number + 1) rest with
      | .ok paths => pure (.ok (path :: paths))
      | .error e => pure (.error e)

/-- Writes statements into a directory, which is made first. -/
def write (directory : Text) (statements : List Text) :
    m (Except StatementFileError (List Text)) := do
  match ← MonadFiles.makeDirectories directory with
  | .ok () => writeFrom directory 1 statements
  | .error cause => pure (.error (.noDirectory directory cause))

end StatementFiles

end SparqlMetrics
