import SparqlMetrics.Command.Options
import SparqlMetrics.Command.Upload
import SparqlMetrics.Dataset.Dictionary
import SparqlMetrics.Dataset.RunState
import SparqlMetrics.Dataset.StatementFiles

/-!
# The run of a dataset

A run makes its directory and a report that says that it is running. Then it goes through its stages:
it reads the records and the dictionary, writes the statements of their analysis and sends them to
an endpoint if there is one, and exports the rows if a format is given. A stage that fails ends them.
Last the report says how the run ended, with the counts of the analysis. The outcome is an exit code
with what goes to standard output and standard error: 0 when every record could be read, 1 when some
could not or a statement was not sent, 2 for an error. A report that cannot be put into words ends
the program without an exit code. Main definition: `DatasetRun.run`.
-/
namespace SparqlMetrics

/-- The outcome of a call. There is no exit code when an exception ends it that nothing catches. -/
structure Outcome where
  exitCode : Option Nat := some 0
  output : Text := []
  errors : Text := []
  deriving DecidableEq, Repr

namespace Outcome

def refused (message : Text) : Outcome := { exitCode := some 2, errors := message ++ utf8 "\n" }

/-- The outcome of a call that an exception ends. -/
def aborted : Outcome := { exitCode := none }

end Outcome

namespace DatasetRun

/-- What a stage says, and whether it went through and sent what it was to send. -/
structure Stage where
  output : Text := []
  errors : Text := []
  failed : Bool := false
  unsent : Bool := false
  deriving DecidableEq, Repr

def errorLine (message : Text) : Text := utf8 "Error: " ++ message ++ utf8 "\n"

namespace Stage

def fail (message : Text) : Stage := { errors := errorLine message, failed := true }

def append (s t : Stage) : Stage :=
  { output := s.output ++ t.output
    errors := s.errors ++ t.errors
    failed := s.failed || t.failed
    unsent := s.unsent || t.unsent }

end Stage

structure Input where
  records : List Record := []
  dictionary : Namespaces := {}

def Input.analysis (input : Input) : Analysis := .ofRecords input.dictionary input.records

def recordWarning (path message : Text) : Text :=
  utf8 "warning: " ++ path ++ utf8 ": " ++ message ++ utf8 "\n"

/-- Where a run has its report. -/
def reportPath (o : Options) : Text := pathAppend o.outDirectory (utf8 "statistics.json")

/-- Says something unless the run is quiet. -/
def unlessQuiet (o : Options) (s : Text) : Text := if o.quiet then [] else s

variable {m : Type → Type} [Monad m]

/-- Goes on with a stage unless one before it has failed. -/
def Stage.andThen (s : Stage) (next : m Stage) : m Stage :=
  if s.failed then pure s else return s.append (← next)

section Stages

variable [MonadFiles m]

def load [JsonLibrary] (o : Options) : m (Stage × Input) := do
  match ← MonadFiles.readFile o.dataset with
  | none => pure (.fail (utf8 "Failed to open file: " ++ o.dataset), {})
  | some content =>
    let (records, errors) := Record.readAll content
    let warned : Stage := { errors := errors.flatMap (recordWarning o.dataset) }
    if o.prefixFile.isEmpty then pure (warned, { records })
    else
      match ← Dictionary.load o.prefixFile with
      | .ok dictionary => pure (warned, { records, dictionary })
      | .error e => pure (warned.append (.fail e.message), {})

def logged (o : Options) (input : Input) : Stage :=
  { errors := unlessQuiet o (Analysis.log input.dictionary input.records) }

def store (o : Options) (statements : List Text) : m Stage := do
  match ← StatementFiles.write o.outDirectory statements with
  | .error e => pure (.fail e.message)
  | .ok paths =>
    pure { output := unlessQuiet o (utf8 "Wrote " ++ Text.ofNat paths.length ++
      utf8 " statement file(s) to " ++ o.outDirectory ++ utf8 "\n") }

/-- Sends statements to the endpoint, if there is one. -/
def send [MonadTransport m] (o : Options) (statements : List Text) : m Stage := do
  if o.uploadEndpoint.isEmpty then pure {}
  else
    let summary ← Upload.sendAll o.upload o.quiet statements
    pure
      { output := unlessQuiet o (utf8 "Uploaded " ++ Text.ofNat summary.sent ++ utf8 "/" ++
          Text.ofNat statements.length ++ utf8 " statement(s) to " ++ o.uploadEndpoint ++
          utf8 "\n")
        errors := summary.log
        unsent := 0 < summary.failed }

/-- Writes the statements of an analysis and sends them. -/
def publish [MonadTransport m] (o : Options) (a : Analysis) : m Stage := do
  match Update.statements o.batchSize a with
  | .error e => pure (.fail e.message)
  | .ok statements => (← store o statements).andThen (send o statements)

def exportRows (o : Options) (a : Analysis) : m Stage := do
  if o.exportFormat.isEmpty then pure {}
  else
    let written ← Table.write a.rows o.exportFormat o.exportPath
    match written.error with
    | some e => pure (.fail e.message)
    | none =>
      pure { output := written.output ++ unlessQuiet o (utf8 "Wrote " ++ o.exportFormat ++
        utf8 ": " ++ o.exportPath ++ utf8 "\n") }

/-- Goes through the stages of a run. -/
def work [MonadTransport m] [JsonLibrary] (o : Options) : m (Stage × Analysis) := do
  let (loaded, input) ← load o
  let analyzed ← loaded.andThen (pure (logged o input))
  let published ← analyzed.andThen (publish o input.analysis)
  let exported ← published.andThen (exportRows o input.analysis)
  pure (exported, input.analysis)

end Stages

/-- The state of a run that has ended. -/
def finalState (state : RunState) (seconds : Nat) (stage : Stage) (a : Analysis) : RunState :=
  { state with
    status := if stage.failed then .failed else .finished
    finishedAt := timestamp seconds
    parsable := a.parsable
    nonParsable := a.nonParsable
    exceptions := a.exceptions }

def exitCode (stage : Stage) (a : Analysis) : Nat :=
  if stage.failed then 2 else if 0 < a.nonParsable || stage.unsent then 1 else 0

/-- The counts that end the output of a run. -/
def counts (a : Analysis) : Text :=
  utf8 "Parsable: " ++ Text.ofNat a.parsable ++ utf8 "\nNonParsable: " ++
    Text.ofNat a.nonParsable ++ utf8 "\n"

/-- What a run that has saved its report comes to, or one whose report could not be written. -/
def conclude (o : Options) (stage : Stage) (a : Analysis) (unsaved : Text) : Outcome :=
  { exitCode := some (exitCode stage a)
    output := stage.output ++ if stage.failed then [] else unlessQuiet o (counts a)
    errors := stage.errors ++ unsaved }

variable [MonadFiles m] [MonadClock m] [JsonLibrary]

/-- Says in the report how the run ended. -/
def finish (o : Options) (state : RunState) (stage : Stage) (a : Analysis) : m Outcome := do
  let seconds ← MonadClock.seconds
  match ← (finalState state seconds stage a).save (reportPath o) with
  | .ok () => pure (conclude o stage a [])
  | .error (.notWritten path cause) => pure (conclude o stage a (errorLine (cause.message path)))
  | .error .notUnicode => pure { Outcome.aborted with output := stage.output, errors := stage.errors }

/-- The state of a run that begins now. -/
def begin [MonadRandom m] : m RunState := do
  let seconds ← MonadClock.seconds
  let bits ← MonadRandom.randomBits
  pure { RunState.start seconds bits with status := .running }

/-- Runs the analysis of a dataset. -/
def run [MonadTransport m] [MonadRandom m] (o : Options) : m Outcome := do
  match ← MonadFiles.makeDirectories o.outDirectory with
  | .error cause =>
    pure (.refused (utf8 "Error: failed to create " ++ o.outDirectory ++ utf8 ": " ++ cause.message))
  | .ok () =>
    let state ← begin
    match ← state.save (reportPath o) with
    | .error (.notWritten path cause) => pure (.refused (utf8 "Error: " ++ cause.message path))
    | .error .notUnicode => pure .aborted
    | .ok () =>
      let (stage, a) ← work o
      finish o state stage a

end DatasetRun

end SparqlMetrics
