import SparqlMetrics.Proofs.Grammar.LegalQueries
import SparqlMetrics.Proofs.Reading.Limits
import SparqlMetrics.Proofs.Reading.Trees
import SparqlMetrics.Proofs.Tree.Spanless

/-!
# Reading written expressions again

An expression that is read under some namespaces is written between brackets and read as one. Where a
comparison or a membership test has a comparison on its left, at any depth, the text is refused. Any
other expression is read to the end of its text or found to nest too deeply, and what is read is the
expression with its elements drifted: the expression itself, where no object of an EXISTS pattern
gives its plus sign away. Main statement: `Expression.bracketedExpression_write`.
-/
namespace SparqlMetrics.Expression

open SparqlMetrics.Grammar TwoRuns Cursor

variable {ns : Namespaces} {e : Expression}

/-- An expression between brackets, read to the end of a text. -/
theorem fares_bracketed (labelled : ns.Labelled) (printable : e.Everywhere printableChecks)
    (indent n : Nat) :
    Fares (bracketedExpression (Level.ofAllowance ns n))
      (Text.bracketed (e.write ns indent).text) (e.Fits n) (e.rewrite reread) [] :=
  fares_bracketedExpression (readsExpression_of_printable labelled e printable indent).tiers n

/-- The nodes of an expression that is read, if its IRIs can stand between angle brackets. -/
theorem printable_of_read (legal : ns.Legal) {allowance : Nat} {c c' : Cursor} (spelled : c.Spelled)
    (read : expression (Level.ofAllowance ns allowance) c = .ok (e, c'))
    (clean : e.Everywhere cleanChecks) : e.Everywhere printableChecks := by
  have level := legal_ofAllowance legal allowance
  have nodes : e.Everywhere legalChecks := (yields_expression level c e c' spelled read).1
  exact e.everywhere_together printableChecks_together nodes clean

/-- What is read from the written form of an expression between brackets. -/
theorem bracketedExpression_write (plain : ns.Plain) {allowance : Nat} {c c' : Cursor}
    (spelled : c.Spelled) (read : expression (Level.ofAllowance ns allowance) c = .ok (e, c'))
    (clean : e.Everywhere cleanChecks) (indent n : Nat) :
    let reading := bracketedExpression (Level.ofAllowance ns n)
      (ofStream (TokenStream.ofText (Text.bracketed (e.write ns indent).text)))
    (e.Everywhere unchainedChecks → e.nesting ≤ n → ∃ again behind, reading = .ok (again, behind) ∧
      again.rewrite .withoutSpans = (e.rewrite reread).rewrite .withoutSpans ∧
      (e.Everywhere keptChecks → again.rewrite .withoutSpans = e.rewrite .withoutSpans) ∧
      behind.ahead = []) ∧
    (e.Everywhere unchainedChecks → n < e.nesting →
      ∃ error, reading = .error error ∧ error.failure = .malformed .nestingTooDeep) ∧
    (¬ e.Everywhere unchainedChecks → ∃ error, reading = .error error) := by
  have printable := printable_of_read plain.toLegal spelled read clean
  have reads := fares_bracketed plain.labelled printable indent
  have alike : ofOneText.LevelTracks (Level.ofAllowance ns n) (Level.ofAllowance ns n) :=
    levelTracks_ofAllowance rfl (Nat.le_refl n)
  have place : (ofStream (TokenStream.ofText (Text.bracketed (e.write ns indent).text))).At
      (Text.bracketed (e.write ns indent).text ++ []) := by
    rw [List.append_nil]
    exact at_ofStream _
  constructor
  · intro unchained fits
    obtain ⟨again, behind, found, same, noRest⟩ :=
      (reads n).ok_of_at ⟨fits, unchained⟩ (tracks_bracketedExpression alike) place rfl
    refine ⟨again, behind, found, same, ?_,
      List.eq_nil_of_length_eq_zero (noRest.trans Text.tokens_nil)⟩
    intro kept
    calc again.rewrite .withoutSpans = (e.rewrite reread).rewrite .withoutSpans := same
      _ = (e.rewrite .withoutSpans).rewrite .withoutSpans := by rw [e.rewrite_of_kept kept]
      _ = e.rewrite .withoutSpans := e.withoutSpans_idem
  constructor
  · intro unchained deep
    have more := levelTracks_truncated ns (Nat.le_of_lt deep)
    apply (reads n).tooDeep_of_at (q := bracketedExpression (Level.ofAllowance ns e.nesting))
    · exact fun fits => absurd fits.1 (Nat.not_le.mpr deep)
    · exact reads e.nesting
    · exact ⟨Nat.le_refl _, unchained⟩
    · exact tracks_bracketedExpression alike
    · exact tracks_bracketedExpression more
    · exact place
    · rfl
  · intro chained
    exact (reads n).error_of_at (fun fits => chained fits.2) (tracks_bracketedExpression alike) place
      rfl

/-- A triple with a number for its object. -/
def testedTriple (value : Text) (start stop : Nat) : Triple where
  subject := ⟨.var (utf8 "s"), ⟨7, 9⟩⟩
  predicate := ⟨.iri (utf8 "urn:p"), ⟨10, 17⟩⟩
  object := ⟨.literal ⟨value, none, some (Grammar.numberDatatype .integer), true⟩, ⟨start, stop⟩⟩
  span := ⟨7, stop⟩

/-- A test for two triples, the second one with a plus sign. -/
def driftingTest : Expression :=
  .exists false (some ⟨.group, [.triple (testedTriple (utf8 "1") 18 19),
    .triple (testedTriple (utf8 "+5") 20 22)], [], none, ⟨6, 23⟩⟩) ⟨0, 23⟩

/-- A test whose second triple gives its plus sign to the predicate when it is read again. -/
theorem bracketedExpression_write_drift :
    ∃ c again behind,
      expression (Level.ofAllowance {} 2)
        (ofStream (TokenStream.ofText (utf8 "EXISTS\x7b?s <urn:p> 1,+5\x7d"))) =
          .ok (driftingTest, c) ∧
      driftingTest.Everywhere unchainedChecks ∧
      bracketedExpression (Level.ofAllowance {} 2)
        (ofStream (TokenStream.ofText (Text.bracketed (driftingTest.write {} 0).text))) =
          .ok (again, behind) ∧
      again.rewrite .withoutSpans ≠ driftingTest.rewrite .withoutSpans := by
  have read : expression (Level.ofAllowance {} 2)
      (ofStream (TokenStream.ofText (utf8 "EXISTS\x7b?s <urn:p> 1,+5\x7d"))) =
        .ok (driftingTest, ⟨[], ⟨.endOfInput, 23, 23⟩, 0⟩) := by
    set_option maxRecDepth 100000 in with_unfolding_all rfl
  have plain : ({} : Namespaces).Plain :=
    { Namespaces.legal_empty with noColon := List.forall_mem_nil _ }
  have clean : driftingTest.Everywhere cleanChecks := by
    have iris : IsCleanIri (utf8 "urn:p") ∧ IsCleanIri (Grammar.numberDatatype .integer) := by
      decide
    have datatype : ∀ iri, some (Grammar.numberDatatype .integer) = some iri → IsCleanIri iri :=
      fun iri same => Option.some.inj same ▸ iris.2
    have object : ∀ value start stop,
        (Element.triple (testedTriple value start stop)).Everywhere cleanChecks :=
      fun _ _ _ => ⟨trivial, trivial, iris.1, datatype⟩
    exact ⟨trivial, trivial, trivial, ⟨object _ _ _, object _ _ _, trivial⟩, trivial, trivial⟩
  have unchained : driftingTest.Everywhere unchainedChecks := by
    have object : ∀ value start stop,
        (Element.triple (testedTriple value start stop)).Everywhere unchainedChecks :=
      fun _ _ _ => ⟨trivial, trivial, trivial, trivial⟩
    exact ⟨trivial, trivial, trivial, ⟨object _ _ _, object _ _ _, trivial⟩, trivial, trivial⟩
  obtain ⟨again, behind, found, same, _⟩ :=
    (bracketedExpression_write plain (spelled_ofStream _) read clean 0 2).1 unchained
      (Nat.le_refl 2)
  refine ⟨_, again, behind, read, unchained, found, ?_⟩
  rw [same]
  intro kept
  injection kept with _ pattern
  injection pattern with pattern
  have elements := congrArg Group.elements pattern
  cases (List.cons.inj (List.cons.inj elements).2).1

end SparqlMetrics.Expression
