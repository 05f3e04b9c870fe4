import SparqlMetrics.Proofs.Command.Interaction

/-!
# Files that a run writes

Statements go into numbered files of a directory, which is made first, and rows into a file in one of
three formats, or to the output. The calls of a run that succeeds are these and no others, and with
these it succeeds. Main statements: `StatementFiles.runs_write_ok_iff`, `Table.runs_write_ok_iff`.
-/
namespace SparqlMetrics

namespace StatementFiles

variable {directory : Text} {number : Nat} {statements paths : List Text} {events : List Event}
variable {e : StatementFileError}

/-- The calls that write statements into files with numbers from a given one on. -/
def writes (directory : Text) (number : Nat) (statements : List Text) : List Event :=
  (statements.zipIdx number).map fun (statement, number) =>
    ⟨.writeFile (pathOf directory number) statement, .ok ()⟩

theorem writes_cons (statement : Text) :
    writes directory number (statement :: statements) =
      ⟨.writeFile (pathOf directory number) statement, .ok ()⟩ ::
        writes directory (number + 1) statements := rfl

/-- Statements are written when each is written into the file of its number. -/
theorem runs_writeFrom_ok_iff :
    (writeFrom directory number statements : Interaction _).Runs events (.ok paths) ↔
      events = writes directory number statements ∧
        paths = (List.range' number statements.length).map (pathOf directory) := by
  induction statements generalizing number events paths with
  | nil => simp [writeFrom, writes]
  | cons statement statements ih =>
      simp only [writeFrom, Interaction.runs_writeFile_iff, writes_cons, List.length_cons,
        List.range'_succ, List.map_cons]
      constructor
      · rintro ⟨written, rest, rfl, h⟩
        cases written with
        | error cause =>
            obtain ⟨-, same⟩ := Interaction.runs_pure_iff.mp h
            cases same
        | ok =>
            obtain ⟨front, others, _, rfl, next, last⟩ := Interaction.runs_bind_iff.mp h
            cases others with
            | error e =>
                obtain ⟨-, same⟩ := Interaction.runs_pure_iff.mp last
                cases same
            | ok others =>
                obtain ⟨rfl, same⟩ := Interaction.runs_pure_iff.mp last
                obtain ⟨rfl, rfl⟩ := ih.mp next
                cases same
                exact ⟨by rw [List.append_nil], rfl⟩
      · rintro ⟨rfl, rfl⟩
        refine ⟨.ok (), _, rfl, Interaction.runs_bind_iff.mpr ⟨_, _, [], ?_, ih.mpr ⟨rfl, rfl⟩, ?_⟩⟩
        · rw [List.append_nil]
        · exact Interaction.runs_pure_iff.mpr ⟨rfl, rfl⟩

/-- Statements are written into a directory that is made first. -/
theorem runs_write_ok_iff :
    (write directory statements : Interaction _).Runs events (.ok paths) ↔
      events = ⟨.makeDirectories directory, .ok ()⟩ :: writes directory 1 statements ∧
        paths = (List.range' 1 statements.length).map (pathOf directory) := by
  simp only [write, Interaction.runs_makeDirectories_iff]
  constructor
  · rintro ⟨made, rest, rfl, h⟩
    cases made with
    | error cause =>
        obtain ⟨-, same⟩ := Interaction.runs_pure_iff.mp h
        cases same
    | ok =>
        obtain ⟨rfl, rfl⟩ := runs_writeFrom_ok_iff.mp h
        exact ⟨rfl, rfl⟩
  · rintro ⟨rfl, rfl⟩
    exact ⟨.ok (), _, rfl, runs_writeFrom_ok_iff.mpr ⟨rfl, rfl⟩⟩

end StatementFiles

namespace Table

variable {rows : List Row} {path content output : Text} {events : List Event}

/-- The text of rows in a format that is written. -/
def text? (rows : List Row) : TableFormat → Option Text
  | .csv => some (csv rows)
  | .json => some (json rows)
  | .ndjson => some (ndjson rows)
  | .parquet => none

/-- The calls that write a text into a file that can be opened. -/
def IsFileOf (path content : Text) (events : List Event) : Prop :=
  ∃ written, written ≠ .error .cannotOpen ∧ events = [⟨.writeFile path content, written⟩]

theorem runs_toFile_iff : (toFile path content : Interaction _).Runs events { output } ↔
    IsFileOf path content events ∧ output = [] := by
  unfold toFile IsFileOf
  rw [Interaction.runs_writeFile_iff]
  constructor
  · rintro ⟨written, rest, rfl, run⟩
    rcases written with ⟨⟨⟩⟩ | ⟨⟩ <;> obtain ⟨rfl, same⟩ := Interaction.runs_pure_iff.mp run <;>
      cases same
    · exact ⟨⟨.error .cannotWrite, nofun, rfl⟩, rfl⟩
    · exact ⟨⟨.ok (), nofun, rfl⟩, rfl⟩
  · rintro ⟨⟨written, opened, rfl⟩, rfl⟩
    refine ⟨written, [], rfl, ?_⟩
    rcases written with ⟨⟨⟩⟩ | ⟨⟩
    · exact absurd rfl opened
    · exact .done _
    · exact .done _

theorem runs_toFileOrOutput_iff :
    (toFileOrOutput path content : Interaction _).Runs events { output } ↔
      if path.isEmpty then events = [] ∧ output = content
      else IsFileOf path content events ∧ output = [] := by
  unfold toFileOrOutput
  split
  · simp
  · exact runs_toFile_iff

/-- Rows are written when they have a text in the format, and go into a file that can be opened or,
when they are JSON and no file is named, to the output. -/
theorem runs_write_ok_iff {format : Text} :
    (write rows format path : Interaction _).Runs events { output } ↔
      ∃ f content, TableFormat.ofName? format = some f ∧ text? rows f = some content ∧
        if f ≠ .csv ∧ path.isEmpty then events = [] ∧ output = content
        else IsFileOf path content events ∧ output = [] := by
  unfold write
  cases TableFormat.ofName? format with
  | none => simp
  | some f =>
      cases f with
      | csv => simp [text?, runs_toFile_iff]
      | json => simp [text?, runs_toFileOrOutput_iff]
      | ndjson => simp [text?, runs_toFileOrOutput_iff]
      | parquet => simp [text?]

end Table

end SparqlMetrics
