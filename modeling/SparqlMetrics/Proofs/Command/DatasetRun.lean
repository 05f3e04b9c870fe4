import SparqlMetrics.Proofs.Command.Deliveries
import SparqlMetrics.Proofs.Command.Outputs
import SparqlMetrics.Proofs.Command.Reports

/-!
# Runs of a dataset

A run talks to files, a transport, a clock and a source of random bits, and whatever these answer,
its exit code is that of what has happened. A run that ends with 0 or 1 has read its input, written
the statements into numbered files, attempted to send each of them and written the rows, in this
order; it ends with 0 when every record could be read and every statement was accepted. A run that
has begun ends with a report, which says that it has failed when the exit code is 2 and otherwise
that it has finished, with the counts of the analysis. There is no exit code only where a note of the
analysis is not UTF-8. Main statements: `DatasetRun.completes_of_runs`, `DatasetRun.fails_of_runs`,
`DatasetRun.aborts_of_runs`.
-/
namespace SparqlMetrics

namespace DatasetRun

variable {o : Options} {s stage : Stage} {input : Input} {a : Analysis} {events : List Event}
variable {statements : List Text} {replies : List (List Upload.Reply)} {outcome : Outcome}
variable {state : RunState}

/-! ## Stages -/

/-- What goes through behind a stage that has gone through. -/
theorem of_andThen {next : Interaction Stage} (h : (s.andThen next).Runs events stage)
    (through : stage.failed = false) :
    s.failed = false ∧ ∃ t, next.Runs events t ∧ t.failed = false ∧ stage = s.append t := by
  unfold Stage.andThen at h
  split at h
  next failed =>
    obtain ⟨-, rfl⟩ := Interaction.runs_pure_iff.mp h
    rw [failed] at through
    cases through
  next =>
    obtain ⟨first, t, _, rfl, run, last⟩ := Interaction.runs_bind_iff.mp h
    obtain ⟨rfl, rfl⟩ := Interaction.runs_pure_iff.mp last
    obtain ⟨front, behind⟩ := Bool.or_eq_false_iff.mp through
    exact ⟨front, t, by rwa [List.append_nil], behind, rfl⟩

/-- The calls that read the input of a run. -/
def Loads [JsonLibrary] (o : Options) (input : Input) (events : List Event) : Prop :=
  ∃ content, input.records = (Record.readAll content).1 ∧
    if o.prefixFile.isEmpty then
      input.dictionary = {} ∧ events = [⟨.readFile o.dataset, some content⟩]
    else
      ∃ text x, JsonLibrary.parse? text = some x ∧ Dictionary.ofJson x = .ok input.dictionary ∧
        events = [⟨.readFile o.dataset, some content⟩, ⟨.readFile o.prefixFile, some text⟩]

theorem dictionary_of_runs [JsonLibrary] {path : Text} {dictionary : Namespaces}
    (h : (Dictionary.load path : Interaction _).Runs events (.ok dictionary)) :
    ∃ text x, JsonLibrary.parse? text = some x ∧ Dictionary.ofJson x = .ok dictionary ∧
      events = [⟨.readFile path, some text⟩] := by
  obtain ⟨content, rest, rfl, run⟩ := Interaction.runs_readFile_iff.mp h
  cases content with
  | none =>
      obtain ⟨-, same⟩ := Interaction.runs_pure_iff.mp run
      cases same
  | some text =>
      cases parsed : JsonLibrary.parse? text with
      | none =>
          simp only [parsed, Interaction.runs_pure_iff, reduceCtorEq, and_false] at run
      | some x =>
          simp only [parsed, Interaction.runs_pure_iff] at run
          obtain ⟨rfl, same⟩ := run
          exact ⟨text, x, parsed, same.symm, rfl⟩

theorem loads_of_runs [JsonLibrary] (h : (load o : Interaction _).Runs events (stage, input))
    (through : stage.failed = false) : Loads o input events ∧ stage.unsent = false := by
  obtain ⟨content, rest, rfl, run⟩ := Interaction.runs_readFile_iff.mp h
  cases content with
  | none =>
      obtain ⟨-, same⟩ := Interaction.runs_pure_iff.mp run
      cases same
      cases through
  | some content =>
      simp only at run
      split at run
      next noDictionary =>
        obtain ⟨rfl, same⟩ := Interaction.runs_pure_iff.mp run
        cases same
        refine ⟨⟨content, rfl, ?_⟩, rfl⟩
        rw [if_pos noDictionary]
        exact ⟨rfl, rfl⟩
      next named =>
        obtain ⟨front, loaded, _, rfl, reads, last⟩ := Interaction.runs_bind_iff.mp run
        cases loaded with
        | error e =>
            obtain ⟨-, same⟩ := Interaction.runs_pure_iff.mp last
            cases same
            cases through
        | ok dictionary =>
            obtain ⟨rfl, same⟩ := Interaction.runs_pure_iff.mp last
            cases same
            obtain ⟨text, x, parsed, valid, rfl⟩ := dictionary_of_runs reads
            refine ⟨⟨content, rfl, ?_⟩, rfl⟩
            rw [if_neg named]
            exact ⟨text, x, parsed, valid, rfl⟩

/-- The calls that write statements into their files. -/
def stored (o : Options) (statements : List Text) : List Event :=
  ⟨.makeDirectories o.outDirectory, .ok ()⟩ :: StatementFiles.writes o.outDirectory 1 statements

theorem stored_of_runs (h : (store o statements : Interaction _).Runs events stage)
    (through : stage.failed = false) : events = stored o statements ∧ stage.unsent = false := by
  obtain ⟨front, written, _, rfl, writes, last⟩ := Interaction.runs_bind_iff.mp h
  cases written with
  | error e =>
      obtain ⟨-, rfl⟩ := Interaction.runs_pure_iff.mp last
      cases through
  | ok paths =>
      obtain ⟨rfl, rfl⟩ := Interaction.runs_pure_iff.mp last
      obtain ⟨rfl, -⟩ := StatementFiles.runs_write_ok_iff.mp writes
      exact ⟨List.append_nil _, rfl⟩

/-- The calls that send statements, if there is an endpoint. -/
def Sends (o : Options) (statements : List Text) (replies : List (List Upload.Reply))
    (events : List Event) : Prop :=
  if o.uploadEndpoint.isEmpty then replies = [] ∧ events = []
  else
    replies.length = statements.length ∧
      (∀ own ∈ replies, Upload.IsDelivery (o.uploadRetries + 1) own) ∧
      events = Upload.allAttempts o.upload statements replies

theorem sends_of_runs (h : (send o statements : Interaction _).Runs events stage) :
    ∃ replies, Sends o statements replies events ∧
      (stage.unsent = false ↔ ∀ own ∈ replies, own.any Upload.Reply.isAccepted = true) := by
  unfold send at h
  split at h
  next noEndpoint =>
    obtain ⟨rfl, rfl⟩ := Interaction.runs_pure_iff.mp h
    exact ⟨[], by simp [Sends, noEndpoint], by simp⟩
  next endpoint =>
    obtain ⟨front, summary, _, rfl, sent, last⟩ := Interaction.runs_bind_iff.mp h
    obtain ⟨rfl, rfl⟩ := Interaction.runs_pure_iff.mp last
    obtain ⟨replies, rfl, sends⟩ := Upload.runs_sendAll_iff.mp sent
    refine ⟨replies, ?_, ?_⟩
    · rw [Sends, if_neg endpoint, List.append_nil]
      exact ⟨sends.each, sends.allowed, rfl⟩
    have failed : summary.failed = replies.countP (!·.any Upload.Reply.isAccepted) := by
      rw [sends.failed, Nat.zero_add]
    simp only [failed, decide_eq_false_iff_not, Nat.not_lt, Nat.le_zero, List.countP_eq_zero]
    simp

/-- The calls that export rows, if a format is given. -/
def Exports (o : Options) (a : Analysis) (events : List Event) : Prop :=
  if o.exportFormat.isEmpty then events = []
  else
    ∃ f content, TableFormat.ofName? o.exportFormat = some f ∧
      Table.text? a.rows f = some content ∧
      if f ≠ .csv ∧ o.exportPath.isEmpty then events = []
      else Table.IsFileOf o.exportPath content events

theorem exports_of_runs (h : (exportRows o a : Interaction _).Runs events stage)
    (through : stage.failed = false) : Exports o a events ∧ stage.unsent = false := by
  unfold exportRows at h
  split at h
  next noFormat =>
    obtain ⟨rfl, rfl⟩ := Interaction.runs_pure_iff.mp h
    exact ⟨by rw [Exports, if_pos noFormat], rfl⟩
  next format =>
    obtain ⟨front, written, _, rfl, writes, last⟩ := Interaction.runs_bind_iff.mp h
    obtain ⟨error, output⟩ := written
    cases error with
    | some e =>
        obtain ⟨-, rfl⟩ := Interaction.runs_pure_iff.mp last
        cases through
    | none =>
        obtain ⟨rfl, rfl⟩ := Interaction.runs_pure_iff.mp last
        obtain ⟨f, content, named, worded, all⟩ := Table.runs_write_ok_iff.mp writes
        rw [Exports, if_neg format, List.append_nil]
        refine ⟨⟨f, content, named, worded, ?_⟩, rfl⟩
        split at all
        next toOutput => rw [if_pos toOutput, all.1]
        next toFile =>
          rw [if_neg toFile]
          exact all.1

/-- What a run does that goes through its stages. -/
structure Works [JsonLibrary] (o : Options) (input : Input) (statements : List Text)
    (replies : List (List Upload.Reply)) (events : List Event) : Prop where
  worded : Update.statements o.batchSize input.analysis = .ok statements
  parts : ∃ loading sending exporting,
    events = loading ++ (stored o statements ++ sending) ++ exporting ∧ Loads o input loading ∧
      Sends o statements replies sending ∧ Exports o input.analysis exporting

theorem publishes_of_runs (h : (publish o a : Interaction _).Runs events stage)
    (through : stage.failed = false) : ∃ statements replies sending,
      Update.statements o.batchSize a = .ok statements ∧ events = stored o statements ++ sending ∧
      Sends o statements replies sending ∧
      (stage.unsent = false ↔ ∀ own ∈ replies, own.any Upload.Reply.isAccepted = true) := by
  unfold publish at h
  split at h
  next e _ =>
    obtain ⟨-, rfl⟩ := Interaction.runs_pure_iff.mp h
    cases through
  next statements worded =>
    obtain ⟨writing, written, sending, rfl, writes, behind⟩ := Interaction.runs_bind_iff.mp h
    obtain ⟨first, t, sent, -, rfl⟩ := of_andThen behind through
    obtain ⟨rfl, said⟩ := stored_of_runs writes first
    obtain ⟨replies, sends, all⟩ := sends_of_runs sent
    refine ⟨statements, replies, sending, worded, rfl, sends, ?_⟩
    rw [← all, Stage.append, said, Bool.false_or]

theorem works_of_runs [JsonLibrary] (h : (work o : Interaction _).Runs events (stage, a))
    (through : stage.failed = false) : ∃ input statements replies, a = input.analysis ∧
      Works o input statements replies events ∧
      (stage.unsent = false ↔ ∀ own ∈ replies, own.any Upload.Reply.isAccepted = true) := by
  obtain ⟨loading, ⟨loaded, input⟩, _, rfl, loads, run⟩ := Interaction.runs_bind_iff.mp h
  obtain ⟨_, analyzed, _, rfl, logs, run⟩ := Interaction.runs_bind_iff.mp run
  obtain ⟨publishing, published, _, rfl, publishes, run⟩ := Interaction.runs_bind_iff.mp run
  obtain ⟨exporting, exported, _, rfl, exports, run⟩ := Interaction.runs_bind_iff.mp run
  obtain ⟨rfl, same⟩ := Interaction.runs_pure_iff.mp run
  cases same
  -- from the last stage to the first, each has one before it that has gone through
  obtain ⟨throughPublished, t, exportsAll, throughExport, rfl⟩ := of_andThen exports through
  obtain ⟨throughAnalyzed, u, publishesAll, throughPublish, rfl⟩ :=
    of_andThen publishes throughPublished
  obtain ⟨throughLoaded, v, log, -, rfl⟩ := of_andThen logs throughAnalyzed
  obtain ⟨rfl, rfl⟩ := Interaction.runs_pure_iff.mp log
  obtain ⟨loadsAll, quietLoaded⟩ := loads_of_runs loads throughLoaded
  obtain ⟨statements, replies, sending, worded, rfl, sends, all⟩ :=
    publishes_of_runs publishesAll throughPublish
  obtain ⟨exportsRows, quietExport⟩ := exports_of_runs exportsAll throughExport
  refine ⟨input, statements, replies, rfl, ⟨worded, loading, sending, exporting, ?_, loadsAll, sends,
    exportsRows⟩, ?_⟩
  · simp only [List.nil_append, List.append_nil, List.append_assoc]
  · rw [← all]
    simp [Stage.append, logged, quietLoaded, quietExport]

/-! ## Reports -/

theorem exitCode_eq_two_iff : exitCode stage a = 2 ↔ stage.failed = true := by
  unfold exitCode
  cases stage.failed
  · simp only [Bool.false_eq_true, if_false, iff_false]
    split <;> omega
  · simp

section Reports

variable [JsonLibrary]

/-- The calls that begin a run, the last of which is to say in the report that it is running. -/
def Begins (o : Options) (state : RunState) (saved : Except ReportError Unit)
    (events : List Event) : Prop :=
  ∃ seconds bits event,
    state = { RunState.start seconds bits with status := .running } ∧
    state.Saves (reportPath o) event saved ∧
    events = [⟨.makeDirectories o.outDirectory, .ok ()⟩, ⟨.seconds, seconds⟩, ⟨.randomBits, bits⟩,
      event]

/-- The calls of a run that cannot begin: its directory is not made, or its report not written. -/
def CannotBegin (o : Options) (events : List Event) : Prop :=
  (∃ cause, events = [⟨.makeDirectories o.outDirectory, .error cause⟩]) ∨
    ∃ state path cause, Begins o state (.error (.notWritten path cause)) events

/-- The calls that say in the report how a run has ended, and its outcome. -/
def Ends (o : Options) (state : RunState) (stage : Stage) (a : Analysis) (events : List Event)
    (outcome : Outcome) : Prop :=
  ∃ seconds event saved,
    (finalState state seconds stage a).Saves (reportPath o) event saved ∧
    events = [⟨.seconds, seconds⟩, event] ∧
    (outcome.exitCode = none ∧ saved = .error .notUnicode ∨
      outcome.exitCode = some (exitCode stage a) ∧ saved ≠ .error .notUnicode)

theorem ends_of_runs (h : (finish o state stage a : Interaction _).Runs events outcome) :
    Ends o state stage a events outcome := by
  obtain ⟨seconds, _, rfl, run⟩ := Interaction.runs_seconds_iff.mp h
  obtain ⟨_, saved, _, rfl, save, last⟩ := Interaction.runs_bind_iff.mp run
  obtain ⟨event, rfl, saves⟩ := RunState.runs_save_iff.mp save
  refine ⟨seconds, event, saved, saves, ?_⟩
  rcases saved with ⟨path, cause⟩ | _ | _ <;> obtain ⟨rfl, rfl⟩ := Interaction.runs_pure_iff.mp last
  · exact ⟨rfl, .inr ⟨rfl, nofun⟩⟩
  · exact ⟨rfl, .inl ⟨rfl, rfl⟩⟩
  · exact ⟨rfl, .inr ⟨rfl, nofun⟩⟩

/-- A run that has an exit code has that of its stages. -/
theorem exitCode_of_ends {n : Nat} (h : Ends o state stage a events outcome)
    (code : outcome.exitCode = some n) : exitCode stage a = n := by
  obtain ⟨seconds, last, saved, -, -, ⟨aborted, -⟩ | ⟨own, -⟩⟩ := h
  · rw [aborted] at code
    cases code
  · exact Option.some.inj (own.symm.trans code)

/-- A run cannot begin, or its first report cannot be put into words, or it begins, does its work and
ends. -/
theorem run_cases (h : (run o : Interaction _).Runs events outcome) :
    (outcome.exitCode = some 2 ∧ CannotBegin o events) ∨
    (outcome.exitCode = none ∧ ∃ state, Begins o state (.error .notUnicode) events) ∨
    ∃ state begun working stage a ended, events = begun ++ working ++ ended ∧
      Begins o state (.ok ()) begun ∧ (work o : Interaction _).Runs working (stage, a) ∧
      Ends o state stage a ended outcome := by
  obtain ⟨made, _, rfl, run⟩ := Interaction.runs_makeDirectories_iff.mp h
  cases made with
  | error cause =>
      obtain ⟨rfl, rfl⟩ := Interaction.runs_pure_iff.mp run
      exact .inl ⟨rfl, .inl ⟨cause, rfl⟩⟩
  | ok =>
      obtain ⟨_, state, _, rfl, begins, run⟩ := Interaction.runs_bind_iff.mp run
      obtain ⟨seconds, _, rfl, next⟩ := Interaction.runs_seconds_iff.mp begins
      obtain ⟨bits, _, rfl, last⟩ := Interaction.runs_randomBits_iff.mp next
      obtain ⟨rfl, rfl⟩ := Interaction.runs_pure_iff.mp last
      obtain ⟨_, saved, _, rfl, save, run⟩ := Interaction.runs_bind_iff.mp run
      obtain ⟨event, rfl, saves⟩ := RunState.runs_save_iff.mp save
      rcases saved with ⟨path, cause⟩ | _ | _
      · obtain ⟨rfl, rfl⟩ := Interaction.runs_pure_iff.mp run
        exact .inl ⟨rfl, .inr ⟨_, path, cause, seconds, bits, event, rfl, saves, rfl⟩⟩
      · obtain ⟨rfl, rfl⟩ := Interaction.runs_pure_iff.mp run
        exact .inr (.inl ⟨rfl, _, seconds, bits, event, rfl, saves, rfl⟩)
      · obtain ⟨working, ⟨stage, a⟩, ended, rfl, works, finish⟩ := Interaction.runs_bind_iff.mp run
        exact .inr (.inr ⟨_, _, working, stage, a, ended, by simp,
          ⟨seconds, bits, event, rfl, saves, rfl⟩, works, ends_of_runs finish⟩)

/-- The exit code is 0, 1 or 2, or there is none. -/
theorem exitCode_of_runs (h : (run o : Interaction _).Runs events outcome) :
    outcome.exitCode = none ∨ ∃ code ≤ 2, outcome.exitCode = some code := by
  rcases run_cases h with ⟨code, -⟩ | ⟨code, -⟩ | ⟨_, _, _, _, _, _, -, -, -, _, _, _, -, -, code⟩
  · exact .inr ⟨2, Nat.le_refl 2, code⟩
  · exact .inl code
  · rcases code with ⟨code, -⟩ | ⟨code, -⟩
    · exact .inl code
    · refine .inr ⟨_, ?_, code⟩
      unfold exitCode
      split
      · exact Nat.le_refl 2
      · split <;> omega

/-- A run that ends with 0 or 1 has gone through its stages and says so in its last report. It ends
with 0 when every record could be read and every statement sent was accepted. -/
theorem completes_of_runs (h : (run o : Interaction _).Runs events outcome)
    (completed : outcome.exitCode = some 0 ∨ outcome.exitCode = some 1) :
    ∃ input statements replies state begun working seconds last saved,
      events = begun ++ working ++ [⟨.seconds, seconds⟩, last] ∧ Begins o state (.ok ()) begun ∧
      Works o input statements replies working ∧
      RunState.Saves (reportPath o)
        { state with
          status := .finished
          finishedAt := timestamp seconds
          parsable := input.analysis.parsable
          nonParsable := input.analysis.nonParsable
          exceptions := input.analysis.exceptions } last saved ∧
      (outcome.exitCode = some 0 ↔ input.analysis.nonParsable = 0 ∧
        ∀ own ∈ replies, own.any Upload.Reply.isAccepted = true) := by
  rcases run_cases h with ⟨code, -⟩ | ⟨code, -⟩ |
    ⟨state, begun, working, stage, a, ended, rfl, begins, work, ends⟩
  · simp [code] at completed
  · simp [code] at completed
  have code : exitCode stage a = 0 ∨ exitCode stage a = 1 :=
    completed.imp (exitCode_of_ends ends) (exitCode_of_ends ends)
  have through : stage.failed = false := by
    rw [Bool.eq_false_iff, Ne, ← exitCode_eq_two_iff (a := a)]
    omega
  have zero : outcome.exitCode = some 0 ↔ exitCode stage a = 0 := by
    refine ⟨exitCode_of_ends ends, fun same => completed.resolve_right fun one => ?_⟩
    have other := exitCode_of_ends ends one
    omega
  obtain ⟨input, statements, replies, rfl, works, all⟩ := works_of_runs work through
  obtain ⟨seconds, last, saved, saves, rfl, -⟩ := ends
  refine ⟨input, statements, replies, state, begun, working, seconds, last, saved, rfl, begins,
    works, ?_, ?_⟩
  · simpa only [finalState, through, Bool.false_eq_true, if_false] using saves
  · rw [zero, ← all, exitCode, through]
    cases stage.unsent <;> simp

/-- A run that ends with 2 cannot begin, or its last report says that it has failed. -/
theorem fails_of_runs (h : (run o : Interaction _).Runs events outcome)
    (failed : outcome.exitCode = some 2) :
    CannotBegin o events ∨ ∃ (state : RunState) (a : Analysis) (begun working : List Event)
        (seconds : Nat) (last : Event) (saved : Except ReportError Unit),
      events = begun ++ working ++ [⟨.seconds, seconds⟩, last] ∧ Begins o state (.ok ()) begun ∧
      RunState.Saves (reportPath o)
        { state with
          status := .failed
          finishedAt := timestamp seconds
          parsable := a.parsable
          nonParsable := a.nonParsable
          exceptions := a.exceptions } last saved := by
  rcases run_cases h with ⟨-, unbegun⟩ | ⟨code, -⟩ |
    ⟨state, begun, working, stage, a, ended, rfl, begins, -, ends⟩
  · exact .inl unbegun
  · simp [code] at failed
  have ending : stage.failed = true := exitCode_eq_two_iff.mp (exitCode_of_ends ends failed)
  obtain ⟨seconds, last, saved, saves, rfl, -⟩ := ends
  refine .inr ⟨state, a, begun, working, seconds, last, saved, rfl, begins, ?_⟩
  simpa only [finalState, ending, if_true] using saves

/-- With a library that refuses nothing but strings that are not UTF-8, as that of the standard
(`Json.dump?_eq_none_iff`), a run has no exit code only when a note of its analysis is not UTF-8. Then
its report is left empty. -/
theorem aborts_of_runs
    (refuses : ∀ x, JsonLibrary.dump? (some 2) x = none → ∃ s ∈ x.strings, ¬ s.IsUtf8)
    (h : (run o : Interaction _).Runs events outcome) (aborted : outcome.exitCode = none) :
    ∃ state begun working stage a seconds written,
      events = begun ++ working ++ [⟨.seconds, seconds⟩, ⟨.writeFile (reportPath o) [], written⟩] ∧
      Begins o state (.ok ()) begun ∧ (work o : Interaction _).Runs working (stage, a) ∧
      ∃ note ∈ a.exceptions, ¬ note.IsUtf8 := by
  rcases run_cases h with ⟨code, -⟩ | ⟨-, _, seconds, bits, _, rfl, saves, -⟩ |
    ⟨state, begun, working, stage, a, _, rfl, begins, work, seconds, last, saved, saves, rfl, code⟩
  · simp [code] at aborted
  · cases saves with
    | notUnicode wordless _ =>
    obtain ⟨s, among, other⟩ := refuses _ wordless
    exact absurd (RunState.isUtf8_strings (RunState.isUtf8_timestamp seconds) Text.isUtf8_nil
      (RunState.isUtf8_identifier bits) (List.forall_mem_nil _) s among) other
  rcases code.symm with ⟨code, -⟩ | ⟨-, rfl⟩
  · simp [code] at aborted
  cases saves with
  | notUnicode wordless _ =>
      refine ⟨state, begun, working, stage, a, seconds, _, rfl, begins, work, ?_⟩
      obtain ⟨begunAt, bits, _, rfl, -, -⟩ := begins
      obtain ⟨s, among, other⟩ := refuses _ wordless
      refine Classical.byContradiction fun unnoted => ?_
      have notes : ∀ note ∈ a.exceptions, note.IsUtf8 := by simpa using unnoted
      exact other (RunState.isUtf8_strings (RunState.isUtf8_timestamp begunAt)
        (RunState.isUtf8_timestamp seconds) (RunState.isUtf8_identifier bits) notes s among)

end Reports

end DatasetRun

end SparqlMetrics
