import SparqlMetrics.Command.Options
import SparqlMetrics.Command.Version

/-!
# Upload

Statements are sent to an endpoint one by one, each again until it is accepted or its retries are
used up, and what fails is logged. A statement travels as the `update` field of a form, where every
byte outside a small set is written as a percent sign and two digits. The transport is a class: a
program without one has a transport that answers that it is not available. Main definitions:
`MonadTransport`, `Upload.sendAll`.
-/
namespace SparqlMetrics

namespace Upload

/-- A byte that stands for itself in a form. -/
def isFormSafe (b : Byte) : Bool :=
  b.isAlnum || b == Byte.hyphen || b == Byte.underscore || b == Byte.dot || b == Byte.tilde

/-- The byte of a hexadecimal digit, in capital letters from ten on. -/
def capitalDigit (n : Nat) : Byte := if n < 10 then Text.digit n else 0x37 + n.toUInt8

def formByte (b : Byte) : Text :=
  if isFormSafe b then [b]
  else [Byte.percent, capitalDigit (b.toNat / 16), capitalDigit (b.toNat % 16)]

def form (statement : Text) : Text := utf8 "update=" ++ statement.flatMap formByte

structure Config where
  endpoint : Text
  user : Text := []
  password : Text := []
  timeoutMs : Int := 30000
  retries : Int := 3
  deriving DecidableEq, Repr

structure Credentials where
  user : Text
  password : Text
  deriving DecidableEq, Repr

structure Request where
  endpoint : Text
  header : Text
  body : Text
  agent : Text
  timeoutMs : Int
  credentials : Option Credentials
  deriving DecidableEq, Repr

/-- What comes of a request: there is no transport, it cannot be set up, it breaks off for a reason,
or the endpoint answers with a status and a response. -/
inductive Reply where
  | unavailable
  | notInitialized
  | interrupted (reason : Text)
  | answered (status : Int) (response : Text)
  deriving DecidableEq, Repr

inductive SendError where
  | noTransport
  | notInitialized
  | interrupted (reason : Text)
  | refused (status : Int) (response : Text)
  deriving DecidableEq, Repr

/-- The wording of an error, which ends early at a zero byte of the response. -/
def SendError.message : SendError → Text
  | .noTransport => utf8 "Upload is disabled (libcurl not available)"
  | .notInitialized => utf8 "Failed to initialize curl"
  | .interrupted reason => utf8 "Failed to post update: " ++ reason
  | .refused status response =>
    (utf8 "Endpoint answered HTTP " ++ Text.ofInt status ++ utf8 ": " ++
      response.take 200).upToZero

/-- The error of an attempt with a given reply; a status of the two hundreds is none. -/
def Reply.error? : Reply → Option SendError
  | .unavailable => some .noTransport
  | .notInitialized => some .notInitialized
  | .interrupted reason => some (.interrupted reason)
  | .answered status response =>
    if status < 200 ∨ 300 ≤ status then some (.refused status response) else none

namespace Config

/-- The name and the password, where a user is given. Both end at a zero byte. -/
def credentials? (c : Config) : Option Credentials :=
  if c.user.isEmpty then none else some ⟨c.user.upToZero, c.password.upToZero⟩

def request (c : Config) (statement : Text) : Request :=
  { endpoint := c.endpoint.upToZero
    header := utf8 "Content-Type: application/x-www-form-urlencoded"
    body := form statement
    agent := utf8 "sparqlstats/" ++ Version.current.write
    timeoutMs := c.timeoutMs
    credentials := c.credentials? }

end Config

end Upload

/-- The transport that the program uses. -/
class MonadTransport (m : Type → Type) where
  /-- Sends a request and waits for what comes of it. -/
  post (request : Upload.Request) : m Upload.Reply

namespace Upload

@[ext] structure Summary where
  sent : Nat := 0
  failed : Nat := 0
  log : Text := []
  deriving DecidableEq, Repr

def attemptWarning (statement attempt : Nat) (e : SendError) : Text :=
  utf8 "warning: statement " ++ Text.ofNat statement ++ utf8 " attempt " ++ Text.ofNat attempt ++
    utf8 " failed: " ++ e.message ++ utf8 "\n"

/-- The error line of a statement that was not sent. -/
def failureLine (number : Nat) (lastError : Text) : Text :=
  utf8 "error: statement " ++ Text.ofNat number ++ utf8 " not uploaded: " ++ lastError ++
    utf8 "\n"

/-- What became of one statement: the last error if it was not sent, and the log of its attempts. -/
structure Delivery where
  sent : Bool := false
  lastError : Text := []
  log : Text := []

def addDelivery (number : Nat) (d : Delivery) (s : Summary) : Summary :=
  if d.sent then { s with sent := s.sent + 1, log := s.log ++ d.log }
  else
    { s with
      failed := s.failed + 1
      log := s.log ++ d.log ++ failureLine number d.lastError }

variable {m : Type → Type} [Monad m] [MonadTransport m]

/-- Attempts a statement until it is accepted, where so many attempts have failed before. -/
def deliver (c : Config) (quiet : Bool) (number : Nat) (statement : Text) (failures : Nat)
    (lastError : Text) : m Delivery := do
  if _h : (failures : Int) ≤ c.retries then
    match (← MonadTransport.post (c.request statement)).error? with
    | none => pure { sent := true }
    | some e =>
      let rest ← deliver c quiet number statement (failures + 1) e.message
      let warning := if quiet then [] else attemptWarning number (failures + 1) e
      pure { rest with log := warning ++ rest.log }
  else pure { lastError }
termination_by (c.retries + 1 - failures).toNat
decreasing_by omega

/-- Sends statements with numbers from a given one on. -/
def sendFrom (c : Config) (quiet : Bool) : Nat → List Text → Summary → m Summary
  | _, [], s => pure s
  | number, statement :: rest, s => do
    let d ← deliver c quiet number statement 0 []
    sendFrom c quiet (number + 1) rest (addDelivery number d s)

def sendAll (c : Config) (quiet : Bool) (statements : List Text) : m Summary :=
  sendFrom c quiet 1 statements {}

end Upload

/-- Where the options have statements sent. -/
def Options.upload (o : Options) : Upload.Config :=
  { endpoint := o.uploadEndpoint
    user := o.uploadUser
    password := o.uploadPassword
    timeoutMs := o.timeoutMs
    retries := o.uploadRetries }

end SparqlMetrics
