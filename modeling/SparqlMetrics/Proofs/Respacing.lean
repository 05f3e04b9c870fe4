import SparqlMetrics.Proofs.Grammar.TracksQueries
import SparqlMetrics.Proofs.Prologue
import SparqlMetrics.Proofs.Token.Gaps
import SparqlMetrics.Proofs.Tree.Spanless

/-!
# White space and comments are insignificant

The grammar sees lexemes and keeps the offsets of tokens for spans and failures only. So two texts
with the same lexemes are both read or both refused, and as the same query but for the spans. The
slices of a text's tokens have the same lexemes in every layout. Main statement:
`QueryUnit.parse_relaid`.
-/
namespace SparqlMetrics

namespace QueryUnit

variable {s t : Text} {unit again : QueryUnit}

/-- Queries that are the same but for the places where they were written. -/
structure SameButSpans (again unit : QueryUnit) : Prop where
  namespaces : again.namespaces = unit.namespaces
  query : again.query.rewrite .withoutSpans = unit.query.rewrite .withoutSpans

/-- A text is read when another one with its lexemes is. -/
theorem parse_of_lexemes (same : (TokenStream.ofText t).lexemes = (TokenStream.ofText s).lexemes)
    (h : parse s = .ok unit) : ∃ again, parse t = .ok again ∧ SameButSpans again unit := by
  let start := Cursor.ofStream (TokenStream.ofText s)
  let start' := Cursor.ofStream (TokenStream.ofText t)
  have place : start'.At s :=
    ⟨congrArg Prod.fst same, congrArg Prod.snd same⟩
  have aligned : TwoRuns.ofOneText.Aligned start' start :=
    TwoRuns.aligned_of_at place (Cursor.at_ofStream s) rfl
  have tracks := (TwoRuns.tracks_repeatFrom (TwoRuns.tracks_declaration? TwoRuns.declares_ofOneText)
    (rfl : TwoRuns.ofOneText.related {} {})).bind
      fun _ _ related => TwoRuns.tracks_queryBehind (S := TwoRuns.ofOneText) related
  unfold parse at h ⊢
  split at h
  · next found d' done =>
    obtain rfl := Except.ok.inj h
    obtain ⟨again, c', read, related, _⟩ | ⟨_, _, impossible⟩ :=
      tracks start' start aligned found d' done
    · have read' : Grammar.queryUnit start' = .ok (again, c') := read
      rw [read']
      exact ⟨again, rfl, related.namespaces, related.query⟩
    · exact impossible.elim
  · cases h

/-- The tokens of a text with other white space and comments around them: the lexemes stay, one text
is read if and only if the other one is, and the queries are the same but for the spans. -/
theorem parse_relaid (ended : (TokenStream.ofText s).last.lexeme = .endOfInput) {l : Layout}
    (fits : l.Fits s.slices) :
    (TokenStream.ofText (l.text s.slices)).lexemes = (TokenStream.ofText s).lexemes ∧
      ((∃ unit, parse s = .ok unit) ↔ ∃ again, parse (l.text s.slices) = .ok again) ∧
      ∀ unit again, parse s = .ok unit → parse (l.text s.slices) = .ok again →
        SameButSpans again unit := by
  have lexemes := TokenStream.lexemes_relaid ended fits
  refine ⟨lexemes, ⟨?_, ?_⟩, ?_⟩
  · rintro ⟨unit, read⟩
    obtain ⟨again, read', _⟩ := parse_of_lexemes lexemes read
    exact ⟨again, read'⟩
  · rintro ⟨again, read⟩
    obtain ⟨unit, read', _⟩ := parse_of_lexemes lexemes.symm read
    exact ⟨unit, read'⟩
  · intro unit again read read'
    obtain ⟨found, read'', same⟩ := parse_of_lexemes lexemes read
    obtain rfl := Except.ok.inj (read'.symm.trans read'')
    exact same

/-- A test whose tokens stand close together, with a comment that the text ends in. -/
def tight : Text := utf8 "ASK\x7b?s ?p 5FILTER(?x<1)\x7d#"

/-- Comments in front of and between twelve words. -/
def commented : Layout := ⟨utf8 "#a\n", List.replicate 11 (utf8 " #>\n") ++ [[]]⟩

theorem fits_commented : commented.Fits tight.slices where
  first := @IsGap.comment (utf8 "a") [] (by decide) .nil
  length := by decide +kernel
  behind := {
    gap := by
      intro g member
      obtain member | member := List.mem_append.mp member
      · rw [List.eq_of_mem_replicate member]
        exact .white (by decide) (@IsGap.comment (utf8 ">") [] (by decide) .nil)
      · rw [List.mem_singleton.mp member]
        exact .nil
    white := by
      intro g member
      obtain member | member := List.mem_append.mp member
      · rw [List.eq_of_mem_replicate member]
        exact .cons (by decide)
      · rw [List.mem_singleton.mp member]
        exact .nil
    nonempty := by
      rw [commented, List.dropLast_concat]
      intro g member
      rw [List.eq_of_mem_replicate member]
      decide }

theorem parse_relaid_commented :
    (TokenStream.ofText tight).last.lexeme = .endOfInput ∧ commented.Fits tight.slices ∧
      (TokenStream.ofText (commented.text tight.slices)).lexemes =
        (TokenStream.ofText tight).lexemes ∧
      ∃ unit again, parse tight = .ok unit ∧ parse (commented.text tight.slices) = .ok again ∧
        SameButSpans again unit := by
  have ended : (TokenStream.ofText tight).last.lexeme = .endOfInput := by decide +kernel
  have accepted : (parse tight).toBool = true := by decide +kernel
  obtain ⟨lexemes, both, same⟩ := parse_relaid ended fits_commented
  cases read : parse tight with
  | error e =>
      rw [read] at accepted
      cases accepted
  | ok unit =>
      obtain ⟨again, read'⟩ := both.mp ⟨unit, read⟩
      exact ⟨ended, fits_commented, lexemes, unit, again, rfl, read', same unit again read read'⟩

end QueryUnit

end SparqlMetrics
