import SparqlMetrics.Json.Writer
import SparqlMetrics.Proofs.Command.Interaction
import SparqlMetrics.Proofs.Text.Utf8

/-!
# Reports of a run

A report is saved in one call, which writes nothing when the report cannot be put into words. Of its
strings only the notes of the analysis may be anything else than UTF-8. Main statements:
`RunState.runs_save_iff`, `RunState.isUtf8_strings`.
-/
namespace SparqlMetrics

namespace RunState

/-! ## Words -/

theorem isUtf8_padded (width n : Nat) : (padded width n).IsUtf8 := by
  refine Text.IsUtf8.append (Text.isUtf8_of_ascii fun b member => ?_) (Text.isUtf8_ofNat n)
  rw [(List.mem_replicate.mp member).2]
  rfl

theorem isUtf8_mark_padded (mark : String) (width n : Nat) {s : Text} (valid : s.IsUtf8) :
    (s ++ utf8 mark ++ padded width n).IsUtf8 :=
  (valid.append ⟨mark, rfl⟩).append (isUtf8_padded width n)

theorem isUtf8_timestamp (seconds : Nat) : (timestamp seconds).IsUtf8 := by
  refine Text.IsUtf8.append ?_ ⟨"Z", rfl⟩
  iterate 5 apply isUtf8_mark_padded
  exact isUtf8_padded 4 _

theorem isHigh_identifierDigit (bits place : Nat) :
    (Text.hexDigit (identifierDigit bits place)).isHigh = false := by
  have digits : ∀ n < 16, (Text.hexDigit n).isHigh = false := by decide
  apply digits
  dsimp only [identifierDigit]
  split
  · decide
  · split <;> omega

theorem isUtf8_identifier (bits : Nat) : (identifier bits).IsUtf8 := by
  refine Text.isUtf8_of_ascii fun b member => ?_
  obtain ⟨place, -, part⟩ := List.mem_flatMap.mp member
  have digit := isHigh_identifierDigit bits place
  unfold identifierPart at part
  split at part
  · rcases List.mem_cons.mp part with rfl | own
    · rfl
    · rwa [List.mem_singleton.mp own]
  · rwa [List.mem_singleton.mp part]

theorem stringsOfItems_map (notes : List Text) :
    Json.stringsOfItems (notes.map .string) = notes := by
  induction notes with
  | nil => rfl
  | cons note notes ih => simp [Json.stringsOfItems, Json.strings, ih]

/-- The notes are the only strings of a report that may be anything else than UTF-8. -/
theorem isUtf8_strings {s : RunState} (created : s.createdAt.IsUtf8) (finished : s.finishedAt.IsUtf8)
    (id : s.id.IsUtf8) (notes : ∀ note ∈ s.exceptions, note.IsUtf8) :
    ∀ t ∈ s.document.strings, t.IsUtf8 := by
  have mark (s : String) : Text.IsUtf8 (utf8 s) := ⟨s, rfl⟩
  have ended : ∀ t ∈ (if s.finishedAt.isEmpty then Json.null else .string s.finishedAt).strings,
      t.IsUtf8 := by
    split
    · nofun
    · simpa [Json.strings] using finished
  simp only [document, Json.strings, Json.stringsOfMembers, stringsOfItems_map]
  simp only [List.forall_mem_cons, List.forall_mem_append, mark, created, id, true_and]
  exact ⟨notes, by simpa using ended⟩

/-! ## Calls -/

variable [JsonLibrary]

/-- A call that saves the report of a state, with what comes of it. -/
inductive Saves (path : Text) (s : RunState) : Event → Except ReportError Unit → Prop where
  | saved {report : Text} (worded : JsonLibrary.dump? (some 2) s.document = some report) :
      Saves path s ⟨.writeFile path (report ++ utf8 "\n"), .ok ()⟩ (.ok ())
  | notWritten {report : Text} {cause : WriteError}
      (worded : JsonLibrary.dump? (some 2) s.document = some report) :
      Saves path s ⟨.writeFile path (report ++ utf8 "\n"), .error cause⟩
        (.error (.notWritten path cause))
  | notOpened (wordless : JsonLibrary.dump? (some 2) s.document = none) :
      Saves path s ⟨.writeFile path [], .error .cannotOpen⟩
        (.error (.notWritten path .cannotOpen))
  | notUnicode {written : Except WriteError Unit}
      (wordless : JsonLibrary.dump? (some 2) s.document = none)
      (opened : written ≠ .error .cannotOpen) :
      Saves path s ⟨.writeFile path [], written⟩ (.error .notUnicode)

theorem runs_save_iff {path : Text} {s : RunState} {events : List Event}
    {outcome : Except ReportError Unit} :
    (s.save path : Interaction _).Runs events outcome ↔
      ∃ event, events = [event] ∧ s.Saves path event outcome := by
  unfold save
  constructor
  · intro h
    split at h
    next report worded =>
      obtain ⟨written, rest, rfl, run⟩ := Interaction.runs_writeFile_iff.mp h
      cases written with
      | error cause =>
          obtain ⟨rfl, rfl⟩ := Interaction.runs_pure_iff.mp run
          exact ⟨_, rfl, .notWritten worded⟩
      | ok =>
          obtain ⟨rfl, rfl⟩ := Interaction.runs_pure_iff.mp run
          exact ⟨_, rfl, .saved worded⟩
    next wordless =>
      obtain ⟨written, rest, rfl, run⟩ := Interaction.runs_writeFile_iff.mp h
      rcases written with ⟨⟨⟩⟩ | ⟨⟩ <;> obtain ⟨rfl, rfl⟩ := Interaction.runs_pure_iff.mp run
      · exact ⟨_, rfl, .notOpened wordless⟩
      · exact ⟨_, rfl, .notUnicode wordless nofun⟩
      · exact ⟨_, rfl, .notUnicode wordless nofun⟩
  · rintro ⟨event, rfl, saves⟩
    cases saves with
    | saved worded =>
        rw [worded]
        exact .ask _ (.done _)
    | notWritten worded =>
        rw [worded]
        exact .ask _ (.done _)
    | notOpened wordless =>
        rw [wordless]
        exact .ask _ (.done _)
    | @notUnicode written wordless opened =>
        rw [wordless]
        rcases written with ⟨⟨⟩⟩ | ⟨⟩
        · exact absurd rfl opened
        · exact .ask _ (.done _)
        · exact .ask _ (.done _)

end RunState

end SparqlMetrics
