import Mathlib.Data.List.Induction
import SparqlMetrics.Dataset.Analysis
import SparqlMetrics.Proofs.Text.Maps

/-!
# An analysis accounts for every record

The loop over the records keeps six tallies at once. `Tallies` says what each of them is for the
records that were read so far; a record adds to those of its kind and leaves the others alone. The
main statement, `Analysis.accounts_ofRecords`, says the same of the finished analysis, in which a
benchmark without namespaces has the stand-in.
-/
namespace SparqlMetrics

namespace Record

variable (dictionary : Namespaces)

/-- What reading a record's query comes to. -/
def outcome (r : Record) : Except ErrorReport QueryUnit :=
  (Resolution.ofText dictionary r.text).outcome

def isReadable (r : Record) : Bool := (r.outcome dictionary).isOk

def row? (r : Record) : Option Row :=
  match r.outcome dictionary with
  | .ok unit => some ⟨r, unit.query.typeName, unit.metrics⟩
  | .error _ => none

/-- The note on a record whose query cannot be read. -/
def exception? (r : Record) : Option Text :=
  match r.outcome dictionary with
  | .ok _ => none
  | .error report => some (r.iri ++ utf8 "    " ++ report.message)

/-- The namespaces that a record's query declares, those put in front of it among them. -/
def declared (r : Record) : List Text :=
  match r.outcome dictionary with
  | .ok unit => unit.namespaces.entries.map (·.2)
  | .error _ => []

/-- How many records of a benchmark cannot be read. -/
def failuresIn (benchmark : Text) (records : List Record) : Nat :=
  records.countP fun r => !r.isReadable dictionary && r.benchmark == benchmark

/-- Whether some record of a benchmark can be read. -/
def anyReadableIn (benchmark : Text) (records : List Record) : Bool :=
  records.any fun r => r.isReadable dictionary && r.benchmark == benchmark

/-- The namespaces that the queries of a benchmark declare. -/
def declaredIn (benchmark : Text) (records : List Record) : List Text :=
  records.flatMap fun r => if r.benchmark = benchmark then r.declared dictionary else []

end Record

namespace Analysis

variable {dictionary : Namespaces} {records : List Record} {a : Analysis} {r : Record}

/-- What the loop over the records has noted of those it has read. -/
structure Tallies (dictionary : Namespaces) (records : List Record) (a : Analysis) : Prop where
  rows : a.rows = records.filterMap (Record.row? dictionary)
  parsable : a.parsable = a.rows.length
  nonParsable : a.nonParsable = records.countP (!Record.isReadable dictionary ·)
  exceptions : a.exceptions = (records.filterMap (Record.exception? dictionary)).eraseDups
  distinctExceptions : a.exceptions.Nodup
  failuresSum : (a.failuresByBenchmark.entries.map (·.2)).sum = a.nonParsable
  failures : ∀ benchmark, a.failuresByBenchmark.find? benchmark =
    if Record.failuresIn dictionary benchmark records = 0 then none
    else some (Record.failuresIn dictionary benchmark records)
  namespaces : ∀ benchmark, a.namespacesByBenchmark.find? benchmark =
    if Record.anyReadableIn dictionary benchmark records then
      some (TextSet.empty.insertAll (Record.declaredIn dictionary benchmark records))
    else none

theorem tallies_nil : Tallies dictionary [] {} where
  rows := rfl
  parsable := rfl
  nonParsable := rfl
  exceptions := rfl
  distinctExceptions := List.nodup_nil
  failuresSum := rfl
  failures _ := rfl
  namespaces _ := rfl

section Step

theorem isReadable_of_ok {unit : QueryUnit} (h : r.outcome dictionary = .ok unit) :
    r.isReadable dictionary = true := by
  rw [Record.isReadable, h]
  rfl

theorem isReadable_of_error {report : ErrorReport} (h : r.outcome dictionary = .error report) :
    r.isReadable dictionary = false := by
  rw [Record.isReadable, h]
  rfl

/-- A note is added behind the others unless it is among them. -/
theorem eraseDups_concat (notes : List Text) (note : Text) :
    (notes ++ [note]).eraseDups =
      if note ∈ notes.eraseDups then notes.eraseDups else notes.eraseDups ++ [note] := by
  rw [List.eraseDups_append]
  by_cases old : note ∈ notes <;> simp [List.removeAll, List.eraseDups_cons, old]

theorem nodup_concat {notes : List Text} {note : Text} (h : notes.Nodup) (new : note ∉ notes) :
    (notes ++ [note]).Nodup := by
  refine List.nodup_append.mpr ⟨h, List.pairwise_singleton _ _, fun other old last single => ?_⟩
  rw [List.mem_singleton.mp single]
  rintro rfl
  exact new old

theorem declared_of_unreadable (h : r.isReadable dictionary = false) :
    r.declared dictionary = [] := by
  rw [Record.declared]
  cases outcome : r.outcome dictionary with
  | ok unit => rw [isReadable_of_ok outcome] at h; cases h
  | error report => rfl

/-- Where no query can be read, none declares a namespace. -/
theorem declaredIn_eq_nil {benchmark : Text}
    (h : Record.anyReadableIn dictionary benchmark records = false) :
    Record.declaredIn dictionary benchmark records = [] := by
  refine List.flatMap_eq_nil_iff.mpr fun r member => ?_
  have unreadable := List.any_eq_false.mp h r member
  split
  · next same => exact declared_of_unreadable (by simpa [same] using unreadable)
  · rfl

/-- A record that can be read adds its row and the namespaces it declares. -/
theorem Tallies.addRow (t : Tallies dictionary records a) {unit : QueryUnit}
    (h : r.outcome dictionary = .ok unit) :
    Tallies dictionary (records ++ [r]) (a.addRow r unit) := by
  have readable := isReadable_of_ok h
  have failures (benchmark : Text) : Record.failuresIn dictionary benchmark (records ++ [r]) =
      Record.failuresIn dictionary benchmark records := by
    simp [Record.failuresIn, readable]
  refine {
    rows := by simp [Analysis.addRow, t.rows, Record.row?, h]
    parsable := by simp [Analysis.addRow, t.parsable]
    nonParsable := by simp [Analysis.addRow, t.nonParsable, readable]
    exceptions := by simp [Analysis.addRow, t.exceptions, Record.exception?, h]
    distinctExceptions := t.distinctExceptions
    failuresSum := t.failuresSum
    failures := fun benchmark => by rw [failures]; exact t.failures benchmark
    namespaces := fun benchmark => ?_ }
  have any : Record.anyReadableIn dictionary benchmark (records ++ [r]) =
      (Record.anyReadableIn dictionary benchmark records || r.benchmark == benchmark) := by
    simp [Record.anyReadableIn, readable]
  have declared : Record.declaredIn dictionary benchmark (records ++ [r]) =
      Record.declaredIn dictionary benchmark records ++
        if r.benchmark = benchmark then unit.namespaces.entries.map (·.2) else [] := by
    simp [Record.declaredIn, Record.declared, h]
  rw [any, declared, Analysis.addRow, TextMap.find?_alter]
  by_cases same : benchmark = r.benchmark
  · subst same
    have old : (if Record.anyReadableIn dictionary r.benchmark records then
        some (TextSet.empty.insertAll (Record.declaredIn dictionary r.benchmark records))
        else none).getD TextSet.empty =
        TextSet.empty.insertAll (Record.declaredIn dictionary r.benchmark records) := by
      split
      · rfl
      · next undeclared => rw [declaredIn_eq_nil (Bool.eq_false_iff.mpr undeclared)]; rfl
    rw [if_pos rfl, if_pos rfl, t.namespaces, old, beq_self_eq_true, Bool.or_true, if_pos rfl,
      TextSet.insertAll_append]
  · have other : ¬ r.benchmark = benchmark := fun eq => same eq.symm
    rw [if_neg same, if_neg other, beq_false_of_ne other, Bool.or_false, List.append_nil]
    exact t.namespaces benchmark

/-- A record that cannot be read adds its note and counts as a failure of its benchmark. -/
theorem Tallies.addFailure (t : Tallies dictionary records a) {report : ErrorReport}
    (h : r.outcome dictionary = .error report) :
    Tallies dictionary (records ++ [r]) (a.addFailure r report.message) := by
  have unreadable := isReadable_of_error h
  have any (benchmark : Text) : Record.anyReadableIn dictionary benchmark (records ++ [r]) =
      Record.anyReadableIn dictionary benchmark records := by
    simp [Record.anyReadableIn, unreadable]
  have declared (benchmark : Text) : Record.declaredIn dictionary benchmark (records ++ [r]) =
      Record.declaredIn dictionary benchmark records := by
    simp [Record.declaredIn, Record.declared, h]
  refine {
    rows := by simp [Analysis.addFailure, t.rows, Record.row?, h]
    parsable := t.parsable
    nonParsable := by simp [Analysis.addFailure, t.nonParsable, unreadable]
    exceptions := ?_
    distinctExceptions := ?_
    failuresSum := by rw [Analysis.addFailure, TextMap.sum_count, t.failuresSum]
    failures := fun benchmark => ?_
    namespaces := fun benchmark => by rw [any, declared]; exact t.namespaces benchmark }
  · have notes : (records ++ [r]).filterMap (Record.exception? dictionary) =
        records.filterMap (Record.exception? dictionary) ++ [exceptionOf r report.message] := by
      simp [Record.exception?, exceptionOf, h]
    rw [notes, eraseDups_concat, ← t.exceptions, Analysis.addFailure]
  · rw [Analysis.addFailure]
    split
    · exact t.distinctExceptions
    · next new => exact nodup_concat t.distinctExceptions new
  · have count : Record.failuresIn dictionary benchmark (records ++ [r]) =
        Record.failuresIn dictionary benchmark records + if r.benchmark = benchmark then 1 else 0 := by
      simp [Record.failuresIn, unreadable]
    rw [count, Analysis.addFailure, TextMap.find?_alter, t.failures, t.failures]
    by_cases same : benchmark = r.benchmark
    · subst same
      have old : (if Record.failuresIn dictionary r.benchmark records = 0 then none
          else some (Record.failuresIn dictionary r.benchmark records)).getD 0 =
          Record.failuresIn dictionary r.benchmark records := by
        split
        · next noFailures => exact noFailures.symm
        · rfl
      rw [if_pos rfl, old, if_pos rfl, if_neg (Nat.succ_ne_zero _)]
    · have other : ¬ r.benchmark = benchmark := fun eq => same eq.symm
      rw [if_neg same, if_neg other, Nat.add_zero]

theorem Tallies.addRecord (t : Tallies dictionary records a) :
    Tallies dictionary (records ++ [r]) (a.addRecord dictionary r) := by
  cases h : r.outcome dictionary with
  | ok unit =>
    rw [Analysis.addRecord, ← Record.outcome, h]
    exact t.addRow h
  | error report =>
    rw [Analysis.addRecord, ← Record.outcome, h]
    exact t.addFailure h

end Step

theorem tallies_foldl (dictionary : Namespaces) (records : List Record) :
    Tallies dictionary records (records.foldl (addRecord dictionary) {}) := by
  induction records using List.reverseRecOn with
  | nil => exact tallies_nil
  | append_singleton records r ih =>
    rw [List.foldl_append]
    exact ih.addRecord

section Finished

/-- What an analysis says of the records it was made of. -/
structure Accounts (dictionary : Namespaces) (records : List Record) (a : Analysis) : Prop where
  /-- The rows are those of the records that can be read, in their order. -/
  rows : a.rows = records.filterMap (Record.row? dictionary)
  kept : a.rows.map (·.record) = records.filter (Record.isReadable dictionary)
  parsable : a.parsable = a.rows.length
  nonParsable : a.nonParsable = records.countP (!Record.isReadable dictionary ·)
  total : a.parsable + a.nonParsable = records.length
  failuresSum : (a.failuresByBenchmark.entries.map (·.2)).sum = a.nonParsable
  /-- A benchmark with failures has their number, and no other benchmark has any. -/
  failures : ∀ benchmark count, (benchmark, count) ∈ a.failuresByBenchmark.entries ↔
    count = Record.failuresIn dictionary benchmark records ∧ 0 < count
  failureKeys : (a.failuresByBenchmark.entries.map (·.1)).Nodup
  distinctExceptions : a.exceptions.Nodup
  /-- Of equal notes the first is kept. -/
  exceptions : a.exceptions = (records.filterMap (Record.exception? dictionary)).eraseDups
  namespaceKeys : (a.namespacesByBenchmark.entries.map (·.1)).Nodup
  /-- The benchmarks with namespaces are those with a record that can be read. -/
  benchmarks : ∀ benchmark, benchmark ∈ a.namespacesByBenchmark.entries.map (·.1) ↔
    ∃ r ∈ records, r.isReadable dictionary = true ∧ r.benchmark = benchmark
  /-- They have the namespaces that their queries declare, each once, or else the stand-in. -/
  namespaces : ∀ benchmark set, (benchmark, set) ∈ a.namespacesByBenchmark.entries →
    if Record.declaredIn dictionary benchmark records = [] then set.members = [noNamespace]
    else set.members.Nodup ∧
      ∀ iri, iri ∈ set.members ↔ iri ∈ Record.declaredIn dictionary benchmark records

theorem record_of_row? {row : Row} (h : r.row? dictionary = some row) : row.record = r := by
  rw [Record.row?] at h
  split at h
  · rw [← Option.some.inj h]
  · cases h

theorem isReadable_iff_row? : r.isReadable dictionary = (r.row? dictionary).isSome := by
  rw [Record.isReadable, Record.row?]
  cases r.outcome dictionary <;> rfl

theorem map_record_rows (records : List Record) :
    (records.filterMap (Record.row? dictionary)).map (·.record) =
      records.filter (Record.isReadable dictionary) := by
  induction records with
  | nil => rfl
  | cons r rest ih =>
    rw [List.filterMap_cons, List.filter_cons, isReadable_iff_row?]
    cases row : r.row? dictionary with
    | none => exact ih
    | some found =>
      rw [Option.isSome_some, if_pos rfl, List.map_cons, ih, record_of_row? row]

theorem mem_standIn {map : TextMap TextSet} {benchmark : Text} {set : TextSet} :
    (benchmark, set) ∈ (standIn map).entries ↔
      ∃ old, (benchmark, old) ∈ map.entries ∧
        (if old.members.isEmpty then .singleton noNamespace else old) = set := by
  simp [standIn, TextMap.mapValues]

theorem keys_standIn (map : TextMap TextSet) :
    (standIn map).entries.map (·.1) = map.entries.map (·.1) := by
  simp [standIn, TextMap.mapValues]

theorem insertAll_empty_eq_nil {ts : List Text} :
    (TextSet.empty.insertAll ts).members = [] ↔ ts = [] := by
  simp [List.eq_nil_iff_forall_not_mem, TextSet.empty]

theorem Tallies.mem_namespaces (t : Tallies dictionary records a) {benchmark : Text}
    {set : TextSet} : (benchmark, set) ∈ a.namespacesByBenchmark.entries ↔
      Record.anyReadableIn dictionary benchmark records = true ∧
        TextSet.empty.insertAll (Record.declaredIn dictionary benchmark records) = set := by
  rw [TextMap.mem_iff_find?, t.namespaces]
  split <;> simp_all

theorem Tallies.mem_failures (t : Tallies dictionary records a) {benchmark : Text} {count : Nat} :
    (benchmark, count) ∈ a.failuresByBenchmark.entries ↔
      count = Record.failuresIn dictionary benchmark records ∧ 0 < count := by
  rw [TextMap.mem_iff_find?, t.failures]
  split <;> grind

section Results

variable (dictionary : Namespaces) (records : List Record)

theorem rows_ofRecords :
    (ofRecords dictionary records).rows = records.filterMap (Record.row? dictionary) :=
  (tallies_foldl dictionary records).rows

theorem mem_rows_ofRecords {row : Row} : row ∈ (ofRecords dictionary records).rows ↔
    ∃ r ∈ records, r.row? dictionary = some row := by
  rw [rows_ofRecords, List.mem_filterMap]

theorem record_of_mem_rows {row : Row} (h : row ∈ (ofRecords dictionary records).rows) :
    row.record ∈ records := by
  obtain ⟨r, there, same⟩ := (mem_rows_ofRecords dictionary records).mp h
  exact record_of_row? same ▸ there

theorem mem_benchmarks_ofRecords {benchmark : Text} :
    benchmark ∈ (ofRecords dictionary records).namespacesByBenchmark.entries.map (·.1) ↔
      ∃ r ∈ records, r.isReadable dictionary = true ∧ r.benchmark = benchmark := by
  have t := tallies_foldl dictionary records
  rw [ofRecords, keys_standIn, List.mem_map]
  constructor
  · rintro ⟨⟨key, set⟩, member, rfl⟩
    simpa [Record.anyReadableIn] using (t.mem_namespaces.mp member).1
  · rintro ⟨r, there, readable, rfl⟩
    have any : Record.anyReadableIn dictionary r.benchmark records = true :=
      List.any_eq_true.mpr ⟨r, there, by simp [readable]⟩
    exact ⟨_, t.mem_namespaces.mpr ⟨any, rfl⟩, rfl⟩

theorem namespaces_ofRecords {benchmark : Text} {set : TextSet}
    (h : (benchmark, set) ∈ (ofRecords dictionary records).namespacesByBenchmark.entries) :
    if Record.declaredIn dictionary benchmark records = [] then set.members = [noNamespace]
    else set.members.Nodup ∧
      ∀ iri, iri ∈ set.members ↔ iri ∈ Record.declaredIn dictionary benchmark records := by
  obtain ⟨old, there, same⟩ := mem_standIn.mp h
  obtain ⟨_, rfl⟩ := (tallies_foldl dictionary records).mem_namespaces.mp there
  simp only [List.isEmpty_iff, insertAll_empty_eq_nil] at same
  split
  · next undeclared =>
    rw [if_pos undeclared] at same
    rw [← same]
    rfl
  · next declares =>
    rw [if_neg declares] at same
    subst same
    exact ⟨TextSet.nodup _, by simp [TextSet.empty]⟩

/-- An analysis accounts for every record: each one has its row or its note, and the counts, the
notes and the namespaces are those of the records, benchmark by benchmark. -/
theorem accounts_ofRecords : Accounts dictionary records (ofRecords dictionary records) := by
  have t := tallies_foldl dictionary records
  have kept : (ofRecords dictionary records).rows.map (·.record) =
      records.filter (Record.isReadable dictionary) := by
    rw [rows_ofRecords, map_record_rows]
  refine {
    rows := t.rows
    kept := kept
    parsable := t.parsable
    nonParsable := t.nonParsable
    total := ?_
    failuresSum := t.failuresSum
    failures := fun _ _ => t.mem_failures
    failureKeys := TextMap.nodup_keys _
    distinctExceptions := t.distinctExceptions
    exceptions := t.exceptions
    namespaceKeys := TextMap.nodup_keys _
    benchmarks := fun _ => mem_benchmarks_ofRecords dictionary records
    namespaces := fun _ _ => namespaces_ofRecords dictionary records }
  · have readable : (ofRecords dictionary records).parsable =
        records.countP (Record.isReadable dictionary) := by
      rw [List.countP_eq_length_filter, ← kept, List.length_map]
      exact t.parsable
    rw [readable, List.length_eq_countP_add_countP (Record.isReadable dictionary)]
    exact congrArg _ (t.nonParsable.trans (by simp))


end Results

end Finished

end Analysis

end SparqlMetrics
