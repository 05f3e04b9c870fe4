import SparqlMetrics.Proofs.Grammar.Truncation
import SparqlMetrics.Proofs.Reading.Reads

/-!
# Reading behind offsets and within limits

What is read in front of a text without offsets is read up to spans at every cursor in front of that
text. Where a reader reads a text under some number of nestings, it fails under a smaller number only
because of the nesting.
-/
namespace SparqlMetrics.Grammar

open SparqlMetrics.Parser TwoRuns Cursor

section Cursors
variable {α κ : Type} {f : α → κ} {p : Parser α} {s rest : Text} {g : Prop} {x : α} {c : Cursor}

/-- What is read without offsets is read behind every offset. -/
theorem Reads.ok_of_at {o : Except ParseError (α × Cursor) → Prop} (h : Reads o p s g x rest)
    (hg : g) (tracks : ofOneText.Tracks (Same f) p p) (place : c.At (s ++ rest))
    (count : c.blankCount = 0) :
    ∃ y c', p c = .ok (y, c') ∧ f y = f x ∧ c'.ahead.length = rest.tokens := by
  have aligned : ofOneText.Aligned c (before (s ++ rest)) := aligned_of_at place (at_before _) count
  rcases tracks c _ aligned x _ (h.result hg) with ⟨y, c', read, same, behind⟩ | ⟨_, _, absurdity⟩
  · exact ⟨y, c', read, same, behind.ahead.length_eq⟩
  · exact absurdity.elim

/-- What fails without offsets fails behind every offset. -/
theorem Fares.error_of_at (h : Fares p s g x rest) (hg : ¬ g)
    (tracks : ofOneText.Tracks (Same f) p p) (place : c.At (s ++ rest)) (count : c.blankCount = 0) :
    ∃ e, p c = .error e := by
  obtain ⟨e, failed⟩ := h.failure hg
  have aligned : ofOneText.Aligned (before (s ++ rest)) c :=
    aligned_of_at (at_before _) place count.symm
  cases found : p c with
  | error e => exact ⟨e, rfl⟩
  | ok pair =>
      rcases tracks _ c aligned pair.1 pair.2 found with ⟨y, c', read, _⟩ | ⟨_, _, absurdity⟩
      · rw [failed] at read
        cases read
      · exact absurdity.elim

/-- Where more nestings would do, a failure is that of the nesting. -/
theorem Fares.tooDeep_of_at {q : Parser α} {g' : Prop} (h : Fares p s g x rest) (hg : ¬ g)
    (more : Fares q s g' x rest) (hg' : g') (tracks : ofOneText.Tracks (Same f) p p)
    (truncates : truncated.Tracks (Same f) p q) (place : c.At (s ++ rest))
    (count : c.blankCount = 0) :
    ∃ e, p c = .error e ∧ e.failure = .malformed .nestingTooDeep := by
  have aligned : truncated.Aligned c (before (s ++ rest)) := aligned_of_at place (at_before _) count
  obtain ⟨e, failed⟩ := h.error_of_at hg tracks place count
  rcases truncates c _ aligned x _ (more.result hg') with ⟨y, c', read, _⟩ | limit
  · rw [failed] at read
    cases read
  · exact limit

end Cursors

end SparqlMetrics.Grammar
