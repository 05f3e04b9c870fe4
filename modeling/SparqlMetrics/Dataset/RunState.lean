import SparqlMetrics.Files
import SparqlMetrics.Json.Basic

/-!
# The state of a run

What is recorded of a run of an analysis: its status, when it began and ended, an identifier, and
the counts and notes of the analysis. The clock and the source of random bits are classes: one gives
the seconds since 1970, the other a number whose hexadecimal digits become the identifier. The
record is a JSON report. Main definitions: `RunState.document`, `RunState.save`.
-/
namespace SparqlMetrics

class MonadClock (m : Type → Type) where
  /-- The seconds since 1970. -/
  seconds : m Nat

class MonadRandom (m : Type → Type) where
  /-- A number whose first 128 bits are random. -/
  randomBits : m Nat

inductive RunStatus where
  | initialized | running | failed | finished
  deriving DecidableEq, Repr

namespace RunStatus

def name : RunStatus → String
  | .initialized => "Initialized"
  | .running => "Running"
  | .failed => "Failed"
  | .finished => "Finished"

def all : List RunStatus := [.initialized, .running, .failed, .finished]

end RunStatus

structure CalendarDay where
  year : Nat
  month : Nat
  day : Nat
  deriving DecidableEq, Repr

/-- The day that comes so many days after the first of January 1970. Years are counted from March in
cycles of four hundred, so that leap days end a year. -/
def CalendarDay.ofDays (days : Nat) : CalendarDay :=
  let shifted := days + 719468
  let dayOfCycle := shifted % 146097
  let yearOfCycle :=
    (dayOfCycle - dayOfCycle / 1460 + dayOfCycle / 36524 - dayOfCycle / 146096) / 365
  let dayOfYear := dayOfCycle - (365 * yearOfCycle + yearOfCycle / 4 - yearOfCycle / 100)
  let monthFromMarch := (5 * dayOfYear + 2) / 153
  let month := if monthFromMarch < 10 then monthFromMarch + 3 else monthFromMarch - 9
  { year := yearOfCycle + shifted / 146097 * 400 + (if month ≤ 2 then 1 else 0)
    month := month
    day := dayOfYear - (153 * monthFromMarch + 2) / 5 + 1 }

/-- A number with zeros in front up to a width. -/
def padded (width n : Nat) : Text :=
  List.replicate (width - (Text.ofNat n).length) (Text.digit 0) ++ Text.ofNat n

/-- A time in UTC, given in seconds since 1970. -/
def timestamp (seconds : Nat) : Text :=
  let date := CalendarDay.ofDays (seconds / 86400)
  let time := seconds % 86400
  padded 4 date.year ++ utf8 "-" ++ padded 2 date.month ++ utf8 "-" ++ padded 2 date.day ++
    utf8 "T" ++ padded 2 (time / 3600) ++ utf8 ":" ++ padded 2 (time / 60 % 60) ++ utf8 ":" ++
    padded 2 (time % 60) ++ utf8 "Z"

namespace RunState

/-- A digit of an identifier of version 4: the version and the variant stand at fixed places. -/
def identifierDigit (bits place : Nat) : Nat :=
  let digit := bits >>> (4 * place) % 16
  if place = 12 then 4 else if place = 16 then 8 + digit % 4 else digit

/-- The digit at a place with the hyphen that stands before some. -/
def identifierPart (bits place : Nat) : Text :=
  let digit := [Text.hexDigit (identifierDigit bits place)]
  if place = 8 ∨ place = 12 ∨ place = 16 ∨ place = 20 then Byte.hyphen :: digit else digit

/-- The identifier of 32 digits of a number. -/
def identifier (bits : Nat) : Text := (List.range 32).flatMap (identifierPart bits)

end RunState

structure RunState where
  status : RunStatus := .initialized
  createdAt : Text
  finishedAt : Text := []
  id : Text
  parsable : Nat := 0
  nonParsable : Nat := 0
  exceptions : List Text := []
  deriving DecidableEq, Repr

/-- Why a report is not saved: its file is not written, or it cannot be put into words. -/
inductive ReportError where
  | notWritten (path : Text) (cause : WriteError)
  | notUnicode
  deriving DecidableEq, Repr

namespace RunState

def start (seconds bits : Nat) : RunState :=
  { createdAt := timestamp seconds, id := identifier bits }

/-- The JSON value of a state. -/
def document (s : RunState) : Json :=
  .object [
    (utf8 "Exceptions", .array (s.exceptions.map .string)),
    (utf8 "State", .object [
      (utf8 "State", .string (utf8 s.status.name)),
      (utf8 "CreatedAt", .string s.createdAt),
      (utf8 "FinishedAt", if s.finishedAt.isEmpty then .null else .string s.finishedAt),
      (utf8 "Id", .string s.id)]),
    (utf8 "Parsable", .number s.parsable 0),
    (utf8 "NonParsable", .number s.nonParsable 0)]

variable {m : Type → Type} [Monad m] [MonadFiles m] [JsonLibrary]

/-- Writes the report of a state. Its file is opened before the report is put into words, so it is
left empty when that fails. -/
def save (path : Text) (s : RunState) : m (Except ReportError Unit) := do
  match JsonLibrary.dump? (some 2) s.document with
  | some report =>
    match ← MonadFiles.writeFile path (report ++ utf8 "\n") with
    | .ok () => pure (.ok ())
    | .error cause => pure (.error (.notWritten path cause))
  | none =>
    match ← MonadFiles.writeFile path [] with
    | .error .cannotOpen => pure (.error (.notWritten path .cannotOpen))
    | .error .cannotWrite => pure (.error .notUnicode)
    | .ok () => pure (.error .notUnicode)

end RunState

end SparqlMetrics
