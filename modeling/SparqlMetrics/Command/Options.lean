import SparqlMetrics.Table
import SparqlMetrics.Text.Numeral

/-!
# Command line options

The options of the program, read from a list of arguments into the options known before. The
arguments are taken in order, and the result is then checked as a whole; an error leaves the known
options as they were. Main definition: `Options.read`.
-/
namespace SparqlMetrics

structure Options where
  query : Text := []
  queryFile : Text := []
  lint : Bool := false
  format : Text := utf8 "text"
  dataset : Text := []
  outDirectory : Text := []
  prefixFile : Text := []
  batchSize : Nat := 100
  exportFormat : Text := []
  exportPath : Text := []
  uploadEndpoint : Text := []
  uploadUser : Text := []
  uploadPassword : Text := []
  uploadRetries : Int := 3
  timeoutMs : Int := 30000
  quiet : Bool := false
  showHelp : Bool := false
  showVersion : Bool := false
  deriving DecidableEq, Repr

inductive OptionError where
  | missingValue (flag : Text)
  | invalidNumber (flag value : Text)
  | numberTooLarge (flag value : Text)
  | emptyBatch
  | unknownArgument (argument : Text)
  | queryAndFile
  | datasetAndQuery
  | unknownFormat
  | datasetWithoutDirectory
  | withoutDataset
  | unknownExport
  | exportWithoutPath
  | pathWithoutExport
  | userWithoutEndpoint
  deriving DecidableEq, Repr

def OptionError.message : OptionError → Text
  | .missingValue flag => utf8 "Missing value for " ++ flag
  | .invalidNumber flag value => utf8 "Invalid value for " ++ flag ++ utf8 ": " ++ value
  | .numberTooLarge flag value => utf8 "Value out of range for " ++ flag ++ utf8 ": " ++ value
  | .emptyBatch => utf8 "--batch-size must be positive"
  | .unknownArgument argument => utf8 "Unknown argument: " ++ argument
  | .queryAndFile => utf8 "Error: --query and --query-file are mutually exclusive"
  | .datasetAndQuery =>
    utf8 "--dataset cannot be combined with --query, --query-file or --lint"
  | .unknownFormat => utf8 "Invalid --format value (use text|json)"
  | .datasetWithoutDirectory => utf8 "--dataset requires --out <dir>"
  | .withoutDataset => utf8 "--out, --prefixes, --export and --upload-endpoint require --dataset"
  | .unknownExport => utf8 "Invalid --export value (use csv|json|ndjson|parquet)"
  | .exportWithoutPath => utf8 "--export requires --export-path <file>"
  | .pathWithoutExport => utf8 "--export-path requires --export"
  | .userWithoutEndpoint =>
    utf8 "--upload-user and --upload-password require --upload-endpoint"

namespace Options

/-- A number as a word of 32 bits with a sign holds it. -/
def wrap32 (n : Int) : Int := n.bmod 0x100000000

/-- Reads a number that is not negative; nothing may stand behind its digits. -/
def number (flag value : Text) : Except OptionError Nat :=
  match Text.leadingInteger value with
  | .missing => .error (.invalidNumber flag value)
  | .tooLarge => .error (.numberTooLarge flag value)
  | .read n rest =>
    if rest.isEmpty && 0 ≤ n then .ok n.toNat else .error (.invalidNumber flag value)

/-- A flag that stands alone. -/
inductive Switch where
  | quiet | help | version
  deriving DecidableEq, Repr

namespace Switch

def flag : Switch → String
  | .quiet => "--quiet"
  | .help => "--help"
  | .version => "--version"

def all : List Switch := [.quiet, .help, .version]

def set (o : Options) : Switch → Options
  | .quiet => { o with quiet := true }
  | .help => { o with showHelp := true }
  | .version => { o with showVersion := true }

end Switch

/-- A flag with a value behind it. -/
inductive Setting where
  | query | queryFile | format | dataset | out | prefixes | batchSize | exportFormat | exportPath
  | uploadEndpoint | uploadUser | uploadPassword | uploadRetries | timeoutMs
  deriving DecidableEq, Repr

namespace Setting

def flag : Setting → String
  | .query => "--query"
  | .queryFile => "--query-file"
  | .format => "--format"
  | .dataset => "--dataset"
  | .out => "--out"
  | .prefixes => "--prefixes"
  | .batchSize => "--batch-size"
  | .exportFormat => "--export"
  | .exportPath => "--export-path"
  | .uploadEndpoint => "--upload-endpoint"
  | .uploadUser => "--upload-user"
  | .uploadPassword => "--upload-password"
  | .uploadRetries => "--upload-retries"
  | .timeoutMs => "--timeout-ms"

def all : List Setting := [
  .query, .queryFile, .format, .dataset, .out, .prefixes, .batchSize, .exportFormat, .exportPath,
  .uploadEndpoint, .uploadUser, .uploadPassword, .uploadRetries, .timeoutMs]

def set (o : Options) (s : Setting) (value : Text) : Except OptionError Options :=
  match s with
  | .query => .ok { o with query := value }
  | .queryFile => .ok { o with queryFile := value }
  | .format => .ok { o with format := value }
  | .dataset => .ok { o with dataset := value }
  | .out => .ok { o with outDirectory := value }
  | .prefixes => .ok { o with prefixFile := value }
  | .batchSize => do
    let n ← number (utf8 s.flag) value
    if n = 0 then .error .emptyBatch else .ok { o with batchSize := n }
  | .exportFormat => .ok { o with exportFormat := value }
  | .exportPath => .ok { o with exportPath := value }
  | .uploadEndpoint => .ok { o with uploadEndpoint := value }
  | .uploadUser => .ok { o with uploadUser := value }
  | .uploadPassword => .ok { o with uploadPassword := value }
  | .uploadRetries => do
    let n ← number (utf8 s.flag) value
    .ok { o with uploadRetries := wrap32 n }
  | .timeoutMs => do
    let n ← number (utf8 s.flag) value
    .ok { o with timeoutMs := wrap32 n }

end Setting

/-- What an argument is. -/
inductive Flag where
  | lint
  | switch (s : Switch)
  | setting (s : Setting)
  deriving DecidableEq, Repr

namespace Flag

def spelling : Flag → String
  | .lint => "--lint"
  | .switch s => s.flag
  | .setting s => s.flag

def all : List Flag := .lint :: (Switch.all.map .switch ++ Setting.all.map .setting)

def ofText? (argument : Text) : Option Flag := all.find? fun f => utf8 f.spelling == argument

end Flag

/-- Whether an argument behind the lint flag is a query: it opens with something other than a
hyphen. -/
def isBareQuery (argument : Text) : Bool :=
  !argument.isEmpty && argument.head? != some Byte.hyphen

/-- Takes arguments one after the other. -/
def take (o : Options) : List Text → Except OptionError Options
  | [] => .ok o
  | argument :: rest =>
    match Flag.ofText? argument with
    | none => .error (.unknownArgument argument)
    | some (.switch s) => take (s.set o) rest
    | some .lint =>
      match rest with
      | [] => .ok { o with lint := true }
      | next :: rest' =>
        if isBareQuery next then take { o with lint := true, query := next } rest'
        else take { o with lint := true } (next :: rest')
    | some (.setting s) =>
      match rest with
      | [] => .error (.missingValue argument)
      | value :: rest' =>
        match s.set o value with
        | .ok changed => take changed rest'
        | .error e => .error e

/-- Whether an option that needs a dataset is set. -/
def usesDataset (o : Options) : Bool :=
  !o.outDirectory.isEmpty || !o.prefixFile.isEmpty || !o.exportFormat.isEmpty ||
    !o.uploadEndpoint.isEmpty

/-- The first reason why options do not go together. -/
def conflict? (o : Options) : Option OptionError :=
  if !o.query.isEmpty && !o.queryFile.isEmpty then some .queryAndFile
  else if !o.dataset.isEmpty && (!o.query.isEmpty || !o.queryFile.isEmpty || o.lint) then
    some .datasetAndQuery
  else if o.format ≠ utf8 "text" && o.format ≠ utf8 "json" then some .unknownFormat
  else if !o.dataset.isEmpty && o.outDirectory.isEmpty then some .datasetWithoutDirectory
  else if o.dataset.isEmpty && o.usesDataset then some .withoutDataset
  else if !o.exportFormat.isEmpty && (TableFormat.ofName? o.exportFormat).isNone then
    some .unknownExport
  else if !o.exportFormat.isEmpty && o.exportPath.isEmpty then some .exportWithoutPath
  else if o.exportFormat.isEmpty && !o.exportPath.isEmpty then some .pathWithoutExport
  else if o.uploadEndpoint.isEmpty && (!o.uploadUser.isEmpty || !o.uploadPassword.isEmpty) then
    some .userWithoutEndpoint
  else none

/-- Reads arguments into known options. -/
def read (known : Options) (arguments : List Text) : Except OptionError Options :=
  match known.take arguments with
  | .error e => .error e
  | .ok o =>
    match o.conflict? with
    | some e => .error e
    | none => .ok o

end Options

end SparqlMetrics
