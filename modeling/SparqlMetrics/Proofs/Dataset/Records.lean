import SparqlMetrics.Dataset.Record
import SparqlMetrics.Proofs.Absolute
import SparqlMetrics.Proofs.Text.Byte
import SparqlMetrics.Proofs.Text.Fields

/-!
# The record of a line

A line is a record when its fields name an IRI, have a query that is not blank, and can be written
between angle brackets where they have to be. The bytes that may stand there are those that the
scanner takes as part of an IRI reference, although the two lists of bytes are kept apart. Main
statements: `Record.fill_of_split` and `Record.exists_fields_of_fill`.
-/
namespace SparqlMetrics

theorem isIriSafeByte_eq (b : Byte) :
    isIriSafeByte b = (!Lexeme.isIriForbidden b && b != Byte.greater) :=
  Byte.forall_of_digits
    (P := fun b => isIriSafeByte b = (!Lexeme.isIriForbidden b && b != Byte.greater))
    (by decide) b

theorem isIriSafe_iff {s : Text} : isIriSafe s = true ↔ IsCleanIri s := by
  simp [isIriSafe, IsCleanIri, isIriSafeByte_eq]

namespace Record

/-- Whether the IRI and the benchmark of a record can be written between angle brackets. -/
structure Safe (r : Record) : Prop where
  iri : IsCleanIri r.iri
  benchmark : IsCleanIri r.benchmark

variable {old r : Record} {line query : Text} {front : List Text}

/-- The record of the fields in front of a query text and of that text. -/
def ofFields (front : List Text) (query : Text) : Record :=
  { identified front with
    text := withDisjunctions query
    benchmark := benchmarkOf (identified front).question }

/-- What the record of a line has to be. -/
structure Acceptable (r : Record) : Prop extends r.Safe where
  identified : r.iri ≠ []
  worded : Text.trim r.text ≠ []

theorem not_length_lt_two (named : front ≠ []) : ¬ (front ++ [query]).length < 2 := by
  have := List.length_pos_iff.mpr named
  simp only [List.length_append, List.length_singleton]
  omega

/-- A line is accepted when its fields make an acceptable record, which it then is. -/
theorem fill_of_split (fields : Text.split fieldSeparator line = front ++ [query])
    (named : front ≠ []) :
    fill old line = (r, none) ↔ r = ofFields front query ∧ (ofFields front query).Acceptable := by
  simp only [fill, fields, if_neg (not_length_lt_two named), List.dropLast_concat,
    List.getLastD_concat]
  have acceptable : (ofFields front query).Acceptable ↔ (identified front).iri.isEmpty = false ∧
      isIriSafe (identified front).iri = true ∧
      (Text.trim (withDisjunctions query)).isEmpty = false ∧
      isIriSafe (benchmarkOf (identified front).question) = true := by
    rw [isIriSafe_iff, isIriSafe_iff, List.isEmpty_eq_false_iff, List.isEmpty_eq_false_iff]
    exact ⟨fun h => ⟨h.identified, h.iri, h.worded, h.benchmark⟩,
      fun ⟨identified, iri, worded, benchmark⟩ => ⟨⟨iri, benchmark⟩, identified, worded⟩⟩
  rw [acceptable]
  cases identity : (identified front).iri.isEmpty with
  | true => simp
  | false =>
      cases iri : isIriSafe (identified front).iri with
      | false => simp
      | true =>
          cases blank : (Text.trim (withDisjunctions query)).isEmpty with
          | true => simp
          | false =>
              cases isIriSafe (benchmarkOf (identified front).question) with
              | false => simp
              | true => simp [ofFields, eq_comm]

/-- A line with no separator is no record. -/
theorem fill_of_singleton (fields : Text.split fieldSeparator line = [query]) :
    fill old line = (old, some .missingFields) := by
  simp [fill, fields]

/-- A line that is accepted has fields, and its record is theirs. -/
theorem exists_fields_of_fill (h : fill old line = (r, none)) : ∃ front query,
    Text.split fieldSeparator line = front ++ [query] ∧ r = ofFields front query ∧
      r.Acceptable := by
  have nonempty : Text.split fieldSeparator line ≠ [] :=
    (Text.hasFields_split (by decide) line).ne_nil
  obtain ⟨front, query, fields⟩ : ∃ front query, Text.split fieldSeparator line = front ++ [query] :=
    ⟨_, _, (List.dropLast_append_getLast nonempty).symm⟩
  by_cases named : front = []
  · rw [named, List.nil_append] at fields
    rw [fill_of_singleton fields] at h
    cases h
  · obtain ⟨rfl, acceptable⟩ := (fill_of_split fields named).mp h
    exact ⟨front, query, fields, rfl, acceptable⟩

end Record

end SparqlMetrics
