import SparqlMetrics.Proofs.Command.Numbers

/-!
# Options that go together

The options of a call are read into those kept from earlier calls, and what comes out is checked as
a whole. The check passes exactly when the options are consistent, whatever was merged, so they stay
consistent over any run of calls; a call that fails leaves them as they were and says why. Main
statement: `Options.consistent_after`.
-/
namespace SparqlMetrics.Options

/-- Options that go together. -/
structure Consistent (o : Options) : Prop where
  oneSource : o.query = [] ∨ o.queryFile = []
  datasetAlone : o.dataset ≠ [] → o.query = [] ∧ o.queryFile = [] ∧ o.lint = false
  datasetDirectory : o.dataset ≠ [] → o.outDirectory ≠ []
  ofDataset : o.dataset = [] →
    o.outDirectory = [] ∧ o.prefixFile = [] ∧ o.exportFormat = [] ∧ o.uploadEndpoint = []
  format : o.format = utf8 "text" ∨ o.format = utf8 "json"
  exportFormat : o.exportFormat = [] ∨ ∃ f : TableFormat, o.exportFormat = utf8 f.name
  exportPath : o.exportFormat = [] ↔ o.exportPath = []
  credentials : o.uploadUser ≠ [] ∨ o.uploadPassword ≠ [] → o.uploadEndpoint ≠ []
  batch : 1 ≤ o.batchSize

variable {o known changed : Options} {arguments : List Text}

theorem ofName?_eq_none_iff {name : Text} :
    TableFormat.ofName? name = none ↔ ∀ f : TableFormat, name ≠ utf8 f.name := by
  simp only [TableFormat.ofName?, List.find?_eq_none, beq_iff_eq]
  constructor
  · intro other f same
    exact other f (by cases f <;> decide) same.symm
  · intro other f _ same
    exact other f same.symm

theorem ite_eq_none_iff {α : Type} {c : Prop} [Decidable c] {e : α} {rest : Option α} :
    (if c then some e else rest) = none ↔ ¬ c ∧ rest = none := by
  split <;> simp [*]

/-- The check finds nothing exactly in options that go together. -/
theorem conflict?_eq_none_iff (batch : 1 ≤ o.batchSize) : o.conflict? = none ↔ o.Consistent := by
  have checks : o.conflict? = none ↔
      (o.query ≠ [] → o.queryFile = []) ∧
      (o.dataset ≠ [] → (o.query = [] ∧ o.queryFile = []) ∧ o.lint = false) ∧
      (o.format ≠ utf8 "text" → o.format = utf8 "json") ∧
      (o.dataset ≠ [] → o.outDirectory ≠ []) ∧
      (o.dataset = [] → ((o.outDirectory = [] ∧ o.prefixFile = []) ∧ o.exportFormat = []) ∧
        o.uploadEndpoint = []) ∧
      (o.exportFormat ≠ [] → ∃ f : TableFormat, o.exportFormat = utf8 f.name) ∧
      (o.exportFormat ≠ [] → o.exportPath ≠ []) ∧
      (o.exportFormat = [] → o.exportPath = []) ∧
      (o.uploadEndpoint = [] → o.uploadUser = [] ∧ o.uploadPassword = []) := by
    simp [conflict?, ite_eq_none_iff, usesDataset, ofName?_eq_none_iff]
  rw [checks]
  constructor
  · rintro ⟨source, alone, format, directory, owned, known, path, noPath, credentials⟩
    constructor
    · exact or_iff_not_imp_left.mpr source
    · exact fun dataset => and_assoc.mp (alone dataset)
    · exact directory
    · exact fun noDataset => and_assoc.mp (and_assoc.mp (owned noDataset))
    · exact or_iff_not_imp_left.mpr format
    · exact or_iff_not_imp_left.mpr known
    · exact ⟨noPath, fun noFormat => Decidable.byContradiction fun given => path given noFormat⟩
    · intro given noEndpoint
      rcases given with user | password
      · exact user (credentials noEndpoint).1
      · exact password (credentials noEndpoint).2
    · exact batch
  · intro h
    refine ⟨?_, ?_, ?_, h.datasetDirectory, ?_, ?_, ?_, h.exportPath.mp, ?_⟩
    · exact or_iff_not_imp_left.mp h.oneSource
    · exact fun dataset => and_assoc.mpr (h.datasetAlone dataset)
    · exact or_iff_not_imp_left.mp h.format
    · exact fun noDataset => and_assoc.mpr (and_assoc.mpr (h.ofDataset noDataset))
    · exact or_iff_not_imp_left.mp h.exportFormat
    · exact fun given noPath => given (h.exportPath.mpr noPath)
    · intro noEndpoint
      have absent : ¬ (o.uploadUser ≠ [] ∨ o.uploadPassword ≠ []) := fun given =>
        h.credentials given noEndpoint
      rwa [not_or, not_not, not_not] at absent

/-- An item keeps the size of a batch positive. -/
theorem batch_of_apply {item : Item} (batch : 1 ≤ o.batchSize) (h : item.apply o = .ok changed) :
    1 ≤ changed.batchSize := by
  rcases Numeric.batchSize.apply_cases h with ⟨-, same⟩ | ⟨-, m, -, -, positive, held⟩
  · change (changed.batchSize : Int) = o.batchSize at same
    omega
  · change (changed.batchSize : Int) = m at held
    have := positive rfl
    omega

theorem batch_of_take (batch : 1 ≤ known.batchSize) (h : known.take arguments = .ok changed) :
    1 ≤ changed.batchSize :=
  take_induction (fun _ _ _ batch applied => batch_of_apply batch applied) batch h

/-- Arguments are accepted exactly when they can be taken and leave options that go together. -/
theorem read_eq_ok_iff (batch : 1 ≤ known.batchSize) :
    known.read arguments = .ok changed ↔
      known.take arguments = .ok changed ∧ changed.Consistent := by
  unfold read
  cases taken : known.take arguments with
  | error e => simp
  | ok merged =>
      have checked := conflict?_eq_none_iff (batch_of_take batch taken)
      cases conflict : merged.conflict? with
      | none =>
          simp only [conflict]
          constructor
          · intro same
            obtain rfl := Except.ok.inj same
            exact ⟨rfl, checked.mp conflict⟩
          · exact fun ⟨same, _⟩ => same
      | some e =>
          simp only [conflict]
          constructor
          · intro same
            cases same
          · rintro ⟨same, consistent⟩
            obtain rfl := Except.ok.inj same
            rw [checked.mpr consistent] at conflict
            cases conflict

/-- Every error has a wording. -/
theorem message_ne_nil (e : OptionError) : e.message ≠ [] := by
  cases e
  case missingValue | unknownArgument =>
    apply List.append_ne_nil_of_left_ne_nil
    decide
  case invalidNumber | numberTooLarge =>
    -- The wording in front of the flag, the colon and the value.
    repeat apply List.append_ne_nil_of_left_ne_nil
    decide
  all_goals decide

/-- A call: the options behind it and the error if it fails. -/
def call (o : Options) (arguments : List Text) : Options × Option OptionError :=
  match o.read arguments with
  | .ok changed => (changed, none)
  | .error e => (o, some e)

/-- The options behind calls, the first one first. -/
def after (o : Options) (calls : List (List Text)) : Options :=
  calls.foldl (fun o arguments => (o.call arguments).1) o

theorem after_cons (o : Options) (arguments : List Text) (calls : List (List Text)) :
    o.after (arguments :: calls) = (o.call arguments).1.after calls := rfl

/-- A call gives options that go together from options that do, and only then succeeds. -/
theorem Consistent.call (h : known.Consistent) (arguments : List Text) :
    (known.call arguments).1.Consistent := by
  unfold Options.call
  split
  · next changed accepted => exact ((read_eq_ok_iff h.batch).mp accepted).2
  · exact h

/-- Options that go together do so behind any calls. -/
theorem Consistent.after (h : known.Consistent) (calls : List (List Text)) :
    (known.after calls).Consistent := by
  induction calls generalizing known with
  | nil => exact h
  | cons arguments calls ih =>
      rw [after_cons]
      exact ih (h.call arguments)

/-- Nothing is wrong with the options of no arguments. -/
theorem consistent_default : ({} : Options).Consistent :=
  (conflict?_eq_none_iff (by decide)).mp (by decide)

/-- Behind any calls, from the options of no arguments on, the options go together. A further call
gives options that go together as well; it succeeds exactly when its arguments can be taken and what
they leave goes together, and then it leaves that; when it fails it leaves the options as they were
and has an error with a wording. -/
theorem consistent_after (calls : List (List Text)) (arguments : List Text) :
    let known := ({} : Options).after calls
    known.Consistent ∧ (known.call arguments).1.Consistent ∧
      (∀ changed, known.call arguments = (changed, none) ↔
        known.take arguments = .ok changed ∧ changed.Consistent) ∧
      ∀ e, (known.call arguments).2 = some e →
        (known.call arguments).1 = known ∧ e.message ≠ [] := by
  intro known
  have consistent : known.Consistent := consistent_default.after calls
  refine ⟨consistent, consistent.call arguments, fun changed => ?_, fun e failed => ?_⟩
  · rw [← read_eq_ok_iff consistent.batch, call]
    cases known.read arguments with
    | ok changed => simp
    | error e => simp
  · refine ⟨?_, message_ne_nil e⟩
    unfold call at failed ⊢
    split at failed
    · cases failed
    · rfl

/-- A query does not go with the dataset of an earlier call. -/
example : ({} : Options).after [
      [utf8 "--dataset", utf8 "lines", utf8 "--out", utf8 "results"], [utf8 "--lint", utf8 "ASK"]] =
    { dataset := utf8 "lines", outDirectory := utf8 "results" } := by decide

end SparqlMetrics.Options
