import SparqlMetrics.Grammar.Term
import SparqlMetrics.Proofs.Text.Numeral
import SparqlMetrics.Proofs.Token.Places
import SparqlMetrics.Proofs.Tree.Legal

/-!
# Where blank nodes come from

A blank node of a text comes from a label that is written there or from a pair of brackets, which is
known by how many pairs opened before it. The sources ahead of a cursor are those of its tokens, the
pairs of brackets numbered from the count of the cursor on: passing over a token leaves a suffix of
them, and so does naming the blank node of brackets. Two sources give one label only when they are
the same or when a written label is spelled like that of a pair of brackets,
`BlankSource.label_eq_label_iff`.
-/
namespace SparqlMetrics

open Grammar

/-- What a blank node comes from: a written label, or a pair of brackets with so many before it. -/
inductive BlankSource where
  | written (label : Text)
  | brackets (before : Nat)
  deriving DecidableEq, Repr

namespace BlankSource

def label : BlankSource → Text
  | written label => label
  | brackets before => bracketLabel before

/-- A written label that is spelled like the one of a pair of brackets. -/
inductive Collides : BlankSource → BlankSource → Prop
  | left (before : Nat) : Collides (written (bracketLabel before)) (brackets before)
  | right (before : Nat) : Collides (brackets before) (written (bracketLabel before))

/-- Each pair of brackets has a label of its own. -/
theorem bracketLabel_injective {m n : Nat} (same : bracketLabel m = bracketLabel n) : m = n := by
  have digits : Text.ofNat m = Text.ofNat n := List.append_cancel_left same
  calc m = Text.digitsValue (Text.ofNat m) := (Text.digitsValue_ofNat m).symm
    _ = Text.digitsValue (Text.ofNat n) := by rw [digits]
    _ = n := Text.digitsValue_ofNat n

/-- Two sources give one label when they are the same one, or when one was written so that it is
spelled like the other one. -/
theorem label_eq_label_iff (x y : BlankSource) : x.label = y.label ↔ x = y ∨ x.Collides y := by
  constructor
  · intro same
    cases x with
    | written l =>
        cases y with
        | written m => exact .inl (congrArg written same)
        | brackets n =>
            obtain rfl : l = bracketLabel n := same
            exact .inr (.left n)
    | brackets m =>
        cases y with
        | written l =>
            obtain rfl : bracketLabel m = l := same
            exact .inr (.right m)
        | brackets n => exact .inl (congrArg brackets (bracketLabel_injective same))
  · rintro (rfl | collides)
    · rfl
    · cases collides with
      | left => rfl
      | right => rfl

end BlankSource

/-- The sources of blank nodes among tokens, each with its offset, behind so many pairs of
brackets. -/
def blankSources (before : Nat) : List Token → List (Nat × BlankSource)
  | [] => []
  | t :: rest =>
    match t.lexeme with
    | .blankNodeLabel label => (t.start, .written label) :: blankSources before rest
    | .symbol .lbracket => (t.start, .brackets before) :: blankSources (before + 1) rest
    | _ => blankSources before rest

/-- Whether a source stands in front of another one; pairs of brackets are numbered in that order. -/
structure Precedes (e f : Nat × BlankSource) : Prop where
  offset : e.1 < f.1
  brackets : ∀ m n, e.2 = .brackets m → f.2 = .brackets n → m < n

section Order
variable {before : Nat} {t : Token} {tokens : List Token} {e : Nat × BlankSource}

/-- A source stands at one of the tokens; a pair of brackets comes behind those counted before. -/
theorem mem_blankSources (h : e ∈ blankSources before tokens) :
    (∃ t ∈ tokens, t.start = e.1) ∧ ∀ n, e.2 = .brackets n → before ≤ n := by
  induction tokens generalizing before with
  | nil => cases h
  | cons t rest ih =>
      have later : ∀ {count}, before ≤ count → e ∈ blankSources count rest →
          (∃ u ∈ t :: rest, u.start = e.1) ∧ ∀ n, e.2 = .brackets n → before ≤ n := by
        intro count le member
        obtain ⟨⟨u, inside, same⟩, enough⟩ := ih member
        exact ⟨⟨u, List.mem_cons_of_mem t inside, same⟩,
          fun n isPair => Nat.le_trans le (enough n isPair)⟩
      rw [blankSources] at h
      split at h
      · rcases List.mem_cons.mp h with rfl | member
        · exact ⟨⟨t, List.mem_cons_self, rfl⟩, nofun⟩
        · exact later (Nat.le_refl before) member
      · rcases List.mem_cons.mp h with rfl | member
        · exact ⟨⟨t, List.mem_cons_self, rfl⟩,
            fun n isPair => Nat.le_of_eq (BlankSource.brackets.inj isPair)⟩
        · exact later (Nat.le_succ before) member
      · exact later (Nat.le_refl before) h

/-- The sources among tokens in the order of their offsets stand in that order. -/
theorem pairwise_blankSources (sorted : tokens.Pairwise fun t u => t.start < u.start)
    (before : Nat) : (blankSources before tokens).Pairwise Precedes := by
  induction tokens generalizing before with
  | nil => exact .nil
  | cons t rest ih =>
      obtain ⟨first, others⟩ := List.pairwise_cons.mp sorted
      have behind : ∀ {count f}, f ∈ blankSources count rest → t.start < f.1 := by
        intro count f member
        obtain ⟨⟨u, inside, same⟩, _⟩ := mem_blankSources member
        exact same ▸ first u inside
      rw [blankSources]
      split
      · exact List.pairwise_cons.mpr ⟨fun f member => ⟨behind member, nofun⟩, ih others _⟩
      · refine List.pairwise_cons.mpr ⟨fun f member => ⟨behind member, fun m n opens isPair => ?_⟩,
          ih others _⟩
        obtain rfl := BlankSource.brackets.inj opens
        exact (mem_blankSources member).2 n isPair
      · exact ih others _

end Order

namespace Text

/-- The sources of blank nodes in a text, each with its offset. -/
def blankSources (s : Text) : List (Nat × BlankSource) :=
  SparqlMetrics.blankSources 0 (TokenStream.ofText s).tokens

/-- The source of a blank node at an offset of a text. -/
def blankSource? (s : Text) (offset : Nat) : Option BlankSource := s.blankSources.lookup offset

variable {s : Text} {x : BlankSource} {offset : Nat}

theorem precedes_blankSources (s : Text) : s.blankSources.Pairwise Precedes := by
  apply pairwise_blankSources
  have placed := TokenStream.placed_of_mem s
  have apart := TokenStream.pairwise_stop s
  rw [List.pairwise_iff_getElem] at apart ⊢
  intro i j hi hj less
  have nonempty := (placed _ (List.getElem_mem hi)).nonempty
  exact Nat.lt_of_lt_of_le nonempty (apart i j hi hj less)

/-- No two sources stand at one offset. -/
theorem blankSource?_of_mem (h : (offset, x) ∈ s.blankSources) : s.blankSource? offset = some x := by
  obtain ⟨front, back, cut⟩ := List.append_of_mem h
  have sorted := s.precedes_blankSources
  rw [cut] at sorted
  obtain ⟨_, _, between⟩ := List.pairwise_append.mp sorted
  refine List.lookup_eq_some_iff.mpr ⟨front, back, cut, fun f member => ?_⟩
  have less := (between f member (offset, x) List.mem_cons_self).offset
  exact bne_iff_ne.mpr (Nat.ne_of_gt less)

/-- A pair of brackets opens at one offset. -/
theorem offset_eq_of_brackets {other n : Nat} (h : (offset, .brackets n) ∈ s.blankSources)
    (h' : (other, .brackets n) ∈ s.blankSources) : offset = other := by
  obtain ⟨front, back, cut⟩ := List.append_of_mem h
  have sorted := s.precedes_blankSources
  rw [cut] at sorted h'
  obtain ⟨_, behind, between⟩ := List.pairwise_append.mp sorted
  have apart : ∀ {e f}, Precedes e f → e.2 = .brackets n → f.2 ≠ .brackets n :=
    fun order opens closes => absurd (order.brackets n n opens closes) (Nat.lt_irrefl n)
  rcases List.mem_append.mp h' with before | rest
  · exact absurd rfl (apart (between _ before _ List.mem_cons_self) rfl)
  · rcases List.mem_cons.mp rest with same | later
    · exact (Prod.mk.inj same).1.symm
    · exact absurd rfl (apart ((List.pairwise_cons.mp behind).1 _ later) rfl)

end Text

/-- Whether a term is no blank node, or one that is labelled by the source at its offset. -/
def Term.ComesFrom (sources : List (Nat × BlankSource)) (t : Term) : Prop :=
  ∀ label, t.node = .blank label → ∃ x, (t.span.start, x) ∈ sources ∧ x.label = label

theorem Term.comesFrom_of_isBlank {sources : List (Nat × BlankSource)} {t : Term}
    (h : t.node.isBlank = false) : t.ComesFrom sources := by
  intro label blank
  rw [blank] at h
  cases h

/-- The check that the blank nodes of a tree come from sources. -/
def sourceChecks (sources : List (Nat × BlankSource)) : NodeChecks where
  term := Term.ComesFrom sources

namespace Cursor

variable {c : Cursor}

/-- The sources of blank nodes ahead of a cursor. -/
def blankSources (c : Cursor) : List (Nat × BlankSource) :=
  SparqlMetrics.blankSources c.blankCount c.ahead

/-- To pass over a token that opens no brackets leaves the sources behind it. -/
theorem blankSources_advance (other : c.token.lexeme ≠ .symbol .lbracket) :
    c.advance.blankSources <:+ c.blankSources := by
  obtain ⟨ahead, last, count⟩ := c
  cases ahead with
  | nil => exact List.suffix_rfl
  | cons t rest =>
      show SparqlMetrics.blankSources count rest <:+ SparqlMetrics.blankSources count (t :: rest)
      rw [SparqlMetrics.blankSources.eq_def count (t :: rest)]
      dsimp only
      split
      · exact List.suffix_cons _ _
      · next opens => exact absurd opens other
      · exact List.suffix_rfl

/-- A written label is a source at its offset. -/
theorem mem_blankSources_written (last : c.last.lexeme.isTerminal = true) {label : Text}
    (here : c.token.lexeme = .blankNodeLabel label) :
    (c.token.start, .written label) ∈ c.blankSources := by
  rw [blankSources, ahead_eq last (here ▸ rfl), SparqlMetrics.blankSources]
  simp only [here]
  exact List.mem_cons_self

/-- A pair of brackets is a source at its offset, and naming its blank node leaves those behind. -/
theorem blankSources_brackets (last : c.last.lexeme.isTerminal = true)
    (here : c.token.lexeme = .symbol .lbracket) :
    c.blankSources = (c.token.start, .brackets c.blankCount) ::
      { c.advance with blankCount := c.blankCount + 1 }.blankSources := by
  rw [blankSources, ahead_eq last (here ▸ rfl), SparqlMetrics.blankSources]
  simp only [here]
  rfl

end Cursor

end SparqlMetrics
