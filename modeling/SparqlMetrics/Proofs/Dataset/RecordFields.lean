import SparqlMetrics.Proofs.Dataset.Records

/-!
# The fields of a record

The separator does not overlap itself, so fields that do not hold it come back from a line whatever
stands at their ends. The benchmark and the rewritten query are told by the occurrences that a search
from the left finds. Main statement: `Record.fill_joined`.
-/
namespace SparqlMetrics.Record

variable {old r : Record} {line query : Text} {front : List Text}

/-- Only what the fields in front of the query text name is read of them. -/
theorem fill_congr {line' : Text} {front' : List Text}
    (fields : Text.split fieldSeparator line = front ++ [query])
    (fields' : Text.split fieldSeparator line' = front' ++ [query]) (named : front ≠ [])
    (named' : front' ≠ []) (same : identified front = identified front') :
    fill old line = fill old line' := by
  simp only [fill, fields, fields', if_neg (not_length_lt_two named),
    if_neg (not_length_lt_two named'), List.dropLast_concat, List.getLastD_concat, same]

theorem isUnbordered_fieldSeparator : fieldSeparator.IsUnbordered := by decide

/-- Fields without a separator are split off again behind each other. -/
theorem split_joined (fields : List Text) (nonempty : fields ≠ [])
    (free : ∀ field ∈ fields, ¬ fieldSeparator <:+: field) :
    Text.split fieldSeparator (Text.join fieldSeparator fields) = fields :=
  (Text.hasFields_iff (by decide)).mp (.of_join isUnbordered_fieldSeparator nonempty free)

/-- The benchmark is what stands in front of the first number of a question. -/
theorem hasFields_benchmarkOf (question : Text) :
    ∃ behind, Text.HasFields (utf8 "-question") question (benchmarkOf question :: behind) := by
  have fields : Text.HasFields (utf8 "-question") question _ :=
    Text.hasFields_split (by decide) question
  generalize Text.split (utf8 "-question") question = all at fields
  cases fields with
  | last free =>
      rw [benchmarkOf, Text.cut?_of_not_infix free]
      exact ⟨[], .last free⟩
  | more first behind =>
      rw [benchmarkOf, Text.cut?_field (by decide) first]
      exact ⟨_, .more first behind⟩

/-- A line of fields that do not hold the separator is accepted if and only if its IRI is there and
can be written between angle brackets, its query is not blank, and the question's part in front of
its number can be written so. It then is the record of these. Without a question, the IRI stands for
it. -/
theorem fill_joined (old : Record) {question iri query : Text}
    (question_free : ¬ fieldSeparator <:+: question) (iri_free : ¬ fieldSeparator <:+: iri)
    (query_free : ¬ fieldSeparator <:+: query) :
    ∃ benchmark text behind pieces,
      Text.HasFields (utf8 "-question") (Text.trim question) (benchmark :: behind) ∧
      Text.HasFields (utf8 " OR ") query pieces ∧ text = Text.join (utf8 " || ") pieces ∧
      ((fill old (question ++ fieldSeparator ++ iri ++ fieldSeparator ++ query)).2 = none ↔
        Text.trim iri ≠ [] ∧ IsCleanIri (Text.trim iri) ∧ Text.trim text ≠ [] ∧
          IsCleanIri benchmark) ∧
      (∀ r, fill old (question ++ fieldSeparator ++ iri ++ fieldSeparator ++ query) = (r, none) →
        r = ⟨Text.trim question, Text.trim iri, text, benchmark⟩) ∧
      fill old (iri ++ fieldSeparator ++ query) =
        fill old (iri ++ fieldSeparator ++ iri ++ fieldSeparator ++ query) := by
  have three {q : Text} (free : ¬ fieldSeparator <:+: q) :
      Text.split fieldSeparator (q ++ fieldSeparator ++ iri ++ fieldSeparator ++ query) =
        [q, iri] ++ [query] := by
    have fields := split_joined [q, iri, query] (List.cons_ne_nil _ _)
      (by simp [free, iri_free, query_free])
    simpa [Text.join_cons] using fields
  have two : Text.split fieldSeparator (iri ++ fieldSeparator ++ query) = [iri] ++ [query] := by
    have fields := split_joined [iri, query] (List.cons_ne_nil _ _)
      (by simp [iri_free, query_free])
    simpa [Text.join_cons] using fields
  obtain ⟨behind, front⟩ := hasFields_benchmarkOf (Text.trim question)
  have accepted (r : Record) :
      fill old (question ++ fieldSeparator ++ iri ++ fieldSeparator ++ query) = (r, none) ↔ _ :=
    fill_of_split (three question_free) (by simp)
  refine ⟨_, withDisjunctions query, behind, _, front, Text.hasFields_split (by decide) query,
    Text.replaceAll_eq_join _ _ _, ?_, ?_, ?_⟩
  · constructor
    · intro read
      obtain ⟨-, h⟩ := (accepted _).mp (Prod.ext rfl read)
      exact ⟨h.identified, h.iri, h.worded, h.benchmark⟩
    · rintro ⟨identified, iri, worded, benchmark⟩
      rw [(accepted _).mpr ⟨rfl, ⟨⟨iri, benchmark⟩, identified, worded⟩⟩]
  · exact fun r read => ((accepted r).mp read).1
  · exact fill_congr two (three iri_free) (by simp) (by simp) rfl

/-- A line whose fields end and begin with parts of the separator, with a query in which two
disjunctions overlap. -/
theorem fill_joined_seams :
    let question := utf8 " set-question1/||"
    let iri := utf8 "http://e/1/ "
    let query := utf8 "||\\ASK \x7b FILTER (?a OR OR ?b) \x7d/"
    let line := question ++ fieldSeparator ++ iri ++ fieldSeparator ++ query
    (¬ fieldSeparator <:+: question ∧ ¬ fieldSeparator <:+: iri ∧ ¬ fieldSeparator <:+: query) ∧
      (fill {} line).2 = none ∧ ∀ r, fill {} line = (r, none) → r =
        ⟨utf8 "set-question1/||", utf8 "http://e/1/",
          utf8 "||\\ASK \x7b FILTER (?a || OR ?b) \x7d/", utf8 "set"⟩ := by
  intro question iri query line
  have question_free : ¬ fieldSeparator <:+: question := by decide
  have iri_free : ¬ fieldSeparator <:+: iri := by decide
  have query_free : ¬ fieldSeparator <:+: query := by decide
  obtain ⟨benchmark, text, behind, pieces, front, found, rfl, accepts, record, -⟩ :=
    fill_joined {} question_free iri_free query_free
  have set : Text.split (utf8 "-question") (Text.trim question) = [utf8 "set", utf8 "1/||"] := by
    decide
  have alternatives : Text.split (utf8 " OR ") query =
      [utf8 "||\\ASK \x7b FILTER (?a", utf8 "OR ?b) \x7d/"] := by decide
  rw [Text.hasFields_iff (by decide)] at front found
  obtain ⟨rfl, -⟩ := List.cons.inj (set.symm.trans front)
  obtain rfl := alternatives.symm.trans found
  exact ⟨⟨question_free, iri_free, query_free⟩,
    accepts.mpr ⟨by decide, by decide, by decide, by decide⟩,
    fun r read => (record r read).trans (by decide)⟩

end SparqlMetrics.Record
