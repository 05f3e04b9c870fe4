import SparqlMetrics.Proofs.Grammar.TracksQueries

/-!
# Readers with fewer nestings allowed

A reader with fewer nestings allowed follows the one with more: it reads the same or stops because
something nests too deeply. At the level where nothing may nest, it stops at its first token, and no
reader with more nestings gets past that token if it is a lexical fault; so the nesting is to blame.
Main statement: `TwoRuns.levelTracks_truncated`.
-/
namespace SparqlMetrics

/-- A cursor at a lexical fault stays there. -/
theorem Cursor.Spelled.advance_eq {d : Cursor} (h : d.Spelled) {fault : LexicalFault}
    (here : d.token.lexeme = .invalid fault) : d.advance = d := by
  obtain ⟨ahead, last, count⟩ := d
  cases ahead with
  | nil => rfl
  | cons t rest =>
      have same : t.lexeme = .invalid fault := here
      have full := (h.1 t List.mem_cons_self).2
      rw [same] at full
      cases full

namespace Grammar

open SparqlMetrics.Parser TwoRuns

/-- Whether an action stops where it finds a lexical fault. -/
def StopsAtFault {α : Type} (p : Parser α) : Prop :=
  ∀ d fault, d.Spelled → d.token.lexeme = .invalid fault → ∃ e, p d = .error e

section Faults
variable {α β : Type}

theorem stopsAtFault_fail (cause : Malformed) : StopsAtFault (fail cause : Parser α) :=
  fun _ _ _ _ => ⟨_, rfl⟩

theorem StopsAtFault.bind {p : Parser α} {f : α → Parser β} (h : StopsAtFault p) :
    StopsAtFault (p >>= f) := by
  intro d fault spelled here
  obtain ⟨e, failed⟩ := h d fault spelled here
  exact ⟨e, bind_eq_of_error failed⟩

/-- Behind an action that looks at a cursor and leaves it in place. -/
theorem stopsAtFault_read {f : Cursor → α} {g : α → Parser β}
    (h : ∀ d fault, d.token.lexeme = .invalid fault → StopsAtFault (g (f d))) :
    StopsAtFault ((fun d => .ok (f d, d)) >>= g) :=
  fun d fault spelled here => h d fault here d fault spelled here

theorem stopsAtFault_position {g : Nat → Parser β} (h : ∀ start, StopsAtFault (g start)) :
    StopsAtFault (position >>= g) :=
  stopsAtFault_read fun d _ _ => h d.token.start

theorem stopsAtFault_lexeme {g : Lexeme → Parser β}
    (h : ∀ fault, StopsAtFault (g (.invalid fault))) : StopsAtFault (lexeme >>= g) :=
  stopsAtFault_read fun _ fault here => here ▸ h fault

theorem stopsAtFault_skip {f : Unit → Parser β} (h : StopsAtFault (f ())) :
    StopsAtFault (skip >>= f) := by
  intro d fault spelled here
  have stays : skip d = .ok ((), d) := congrArg (fun c => Except.ok ((), c)) (spelled.advance_eq here)
  rw [bind_eq_of_ok stays]
  exact h d fault spelled here

theorem stopsAtFault_mark (s : Symbol) (e : Expectation) : StopsAtFault (mark s e) :=
  stopsAtFault_lexeme fun _ => stopsAtFault_fail _

theorem stopsAtFault_tryMark {s : Symbol} {g : Bool → Parser β} (h : StopsAtFault (g false)) :
    StopsAtFault (tryMark s >>= g) := by
  intro d fault spelled here
  have unmarked : tryMark s d = .ok (false, d) := by
    have absent : isAt s d = .ok (false, d) := by
      rw [isAt, here]
      rfl
    exact bind_eq_of_ok absent
  rw [bind_eq_of_ok unmarked]
  exact h d fault spelled here

end Faults

section Readers
variable (level : Level)

theorem stopsAtFault_pathPrimary : StopsAtFault (pathPrimary level) :=
  stopsAtFault_lexeme fun _ => stopsAtFault_fail _

theorem stopsAtFault_path : StopsAtFault (path level) := by
  have part : StopsAtFault (pathPart level) := by
    apply stopsAtFault_tryMark
    exact (stopsAtFault_pathPrimary level).bind
  have sequence : StopsAtFault (pathSequence level) := part.bind
  exact sequence.bind

theorem stopsAtFault_bracketedPath : StopsAtFault (bracketedPath level) :=
  stopsAtFault_skip (stopsAtFault_path level).bind

theorem stopsAtFault_operandWithin : StopsAtFault (operandWithin level) := by
  apply stopsAtFault_position
  intro start
  apply stopsAtFault_lexeme
  intro fault
  apply stopsAtFault_position
  intro start
  exact stopsAtFault_lexeme fun _ => stopsAtFault_fail _

theorem stopsAtFault_bracedGroup (kind : GroupKind) : StopsAtFault (bracedGroup level kind) :=
  stopsAtFault_position fun _ => (stopsAtFault_mark _ _).bind

theorem stopsAtFault_propertyList (subject : Term) :
    StopsAtFault (propertyList level subject true) :=
  stopsAtFault_lexeme fun _ => stopsAtFault_fail _

theorem stopsAtFault_bracketedBlankNode : StopsAtFault (bracketedBlankNode level) := by
  apply stopsAtFault_position
  intro start
  apply stopsAtFault_skip
  intro d fault spelled here
  have next := fun node => stopsAtFault_tryMark (s := .rbracket)
    (g := fun closed => if closed then do pure (endingAt node (← position), []) else do
      let properties ← propertyList level node true
      mark .rbracket .closeBlankNode
      pure (endingAt node (← position), properties))
    (stopsAtFault_propertyList level node).bind
  exact next _ { d with blankCount := d.blankCount + 1 } fault spelled here

end Readers

end Grammar

namespace TwoRuns

open SparqlMetrics.Parser SparqlMetrics.Grammar

/-- Two runs on the same tokens, of which the first one may find that something nests too deeply. -/
def truncated : TwoRuns where
  rewriting := .withoutSpans
  escapes failure := failure = .malformed .nestingTooDeep
  related := Eq
  respelled _ _ _ := False
  span_eq := ofOneText.span_eq
  leaf_eq := ofOneText.leaf_eq
  resolve same found := .inl ⟨_, same ▸ found, rfl⟩
  expand same _ found := .inl ⟨_, same ▸ found, rfl⟩
  respell := ofOneText.respell

theorem token_of_truncated {c d : Cursor} (aligned : truncated.Aligned c d) :
    c.token.lexeme = d.token.lexeme := by
  have alike := aligned.token
  generalize c.token.lexeme = here, d.token.lexeme = there at alike
  cases alike with
  | same => rfl
  | iri respelled => exact respelled.elim

/-- Where nothing may nest, an action that gets past no lexical fault is truncated. -/
theorem tracks_tooDeep {α β : Type} {R : α → β → Prop} {q : Parser β} (h : StopsAtFault q) :
    truncated.Tracks R (fail .nestingTooDeep : Parser α) q := by
  intro c d aligned y d' found
  apply Or.inr
  refine ⟨c.error .nestingTooDeep, rfl, ?_⟩
  have valid : ∀ fault, c.token.lexeme ≠ .invalid fault := by
    intro fault here
    rw [token_of_truncated aligned] at here
    obtain ⟨e, failed⟩ := h d fault aligned.spelled here
    rw [failed] at found
    cases found
  unfold Cursor.error
  split
  · next fault here => exact absurd here (valid fault)
  · rfl

/-- The levels around two levels that follow each other do so too. -/
theorem LevelTracks.outer {S : TwoRuns} {ns : Namespaces} {fewer more : Nat} (h : S.related ns ns)
    (inner : S.LevelTracks (Level.ofAllowance ns fewer) (Level.ofAllowance ns more)) :
    S.LevelTracks (Level.ofAllowance ns (fewer + 1)) (Level.ofAllowance ns (more + 1)) where
  namespaces := h
  operand := tracks_operandWithin inner
  group := tracks_bracedGroup inner
  pathGroup := tracks_bracketedPath inner
  blankNode := tracks_bracketedBlankNode inner

theorem levelTracks_exhausted (ns : Namespaces) (more : Nat) :
    truncated.LevelTracks (.exhausted ns) (Level.ofAllowance ns more) := by
  cases more with
  | zero =>
      constructor
      · rfl
      · exact tracks_fail _ _
      · exact fun _ _ _ => tracks_fail _ _
      · exact tracks_fail _ _
      · exact tracks_fail _ _
  | succ more =>
      constructor
      · rfl
      · exact tracks_tooDeep (stopsAtFault_operandWithin _)
      · exact fun _ kind _ => tracks_tooDeep (stopsAtFault_bracedGroup _ kind)
      · exact tracks_tooDeep (stopsAtFault_bracketedPath _)
      · exact tracks_tooDeep (stopsAtFault_bracketedBlankNode _)

/-- A level with fewer nestings allowed follows one with more. -/
theorem levelTracks_truncated (ns : Namespaces) {fewer more : Nat} (le : fewer ≤ more) :
    truncated.LevelTracks (Level.ofAllowance ns fewer) (Level.ofAllowance ns more) := by
  induction fewer generalizing more with
  | zero => exact levelTracks_exhausted ns more
  | succ fewer ih =>
      obtain ⟨more, rfl⟩ : ∃ n, more = n + 1 := ⟨more - 1, by omega⟩
      exact LevelTracks.outer rfl (@ih more (by omega))

end TwoRuns

end SparqlMetrics
