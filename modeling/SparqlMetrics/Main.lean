import SparqlMetrics.Command.Run
import SparqlMetrics.Json.Standard

/-!
# The program

The command on the files of the system and on the standard streams. Its JSON is that of the standard,
and it has no transport, so that no statement is sent.
-/
namespace SparqlMetrics.Program

def fileName (path : Text) : String := (String.fromUTF8? ⟨path.toArray⟩).getD ""

/-- Why a directory could not be made; code 36 tells of a name that is too long. -/
def fileError : IO.Error → FileError
  | .noFileOrDirectory .. => .notFound
  | .inappropriateType .. => .notADirectory
  | .alreadyExists .. => .alreadyExists
  | .invalidArgument _ 36 _ => .nameTooLong
  | _ => .invalidArgument

/-- The content of a file of the system; a directory can be opened and has none. -/
def readFile (path : Text) : IO (Option Text) := do
  try
    let bytes ← IO.FS.readBinFile (fileName path)
    pure (some bytes.data.toList)
  catch
    | .inappropriateType .. => pure (some [])
    | _ => pure none

def makeDirectories (path : Text) : IO (Except FileError Unit) := do
  try
    IO.FS.createDirAll (fileName path)
    pure (.ok ())
  catch e => pure (.error (fileError e))

/-- Replaces the content of a file of the system. -/
def writeFile (path content : Text) : IO (Except WriteError Unit) := do
  let opened ← try pure (some (← IO.FS.Handle.mk (fileName path) .write)) catch _ => pure none
  match opened with
  | none => pure (.error .cannotOpen)
  | some file =>
    try
      file.write ⟨content.toArray⟩
      file.flush
      pure (.ok ())
    catch _ => pure (.error .cannotWrite)

/-- The seconds since 1970, as the system notes them for a file that is made now. -/
def seconds : IO Nat := do
  let (_, path) ← IO.FS.createTempFile
  let time := (← path.metadata).modified
  IO.FS.removeFile path
  pure time.sec.toNat

def randomBits : IO Nat := do
  let bytes ← IO.getRandomBytes 16
  pure (bytes.data.foldl (fun bits b => 256 * bits + b.toNat) 0)

instance : MonadFiles IO := ⟨readFile, makeDirectories, writeFile⟩

instance : MonadTransport IO := ⟨fun _ => pure .unavailable⟩

instance : MonadClock IO := ⟨seconds⟩

instance : MonadRandom IO := ⟨randomBits⟩

instance : JsonLibrary := Json.standard

/-- The code of a program that an exception ends. -/
def abortCode : UInt32 := 134

def emit (stream : IO.FS.Stream) (bytes : Text) : IO Unit := do
  stream.write ⟨bytes.toArray⟩
  stream.flush

end SparqlMetrics.Program

open SparqlMetrics in
/-- Runs the command on the arguments of the call. -/
def main (arguments : List String) : IO UInt32 := do
  let outcome ← Command.run (arguments.map utf8)
  Program.emit (← IO.getStdout) outcome.output
  Program.emit (← IO.getStderr) outcome.errors
  pure ((outcome.exitCode.map Nat.toUInt32).getD Program.abortCode)
