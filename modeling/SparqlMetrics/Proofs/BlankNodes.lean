import SparqlMetrics.Proofs.Outcome

/-!
# Which blank nodes of a query share a label

The blank nodes of a query come from the labels that its text writes and from its pairs of brackets.
Two of them have one label when they come from one written label or from one pair of brackets. No
others do, except that a label may be written like the one that a pair of brackets is given. Main
statement: `QueryUnit.label_eq_iff_of_parse`.
-/
namespace SparqlMetrics

def Path.steps : Path → List Term
  | .step predicate => [predicate]
  | .inverse inner => inner.steps
  | .repeated _ inner => inner.steps
  | .negated inner => inner.steps
  | .join _ left right => left.steps ++ right.steps

def Element.steps : Element → List Term
  | .path _ p _ _ => p.steps
  | _ => []

/-- The check that a term does not occur in a tree, in the steps of its paths neither. -/
def withoutTerm (t : Term) : NodeChecks where
  term u := u ≠ t
  element e := t ∉ e.steps

/-- Whether a term occurs in a query: not every place of the query is without it. -/
def Query.Mentions (q : Query) (t : Term) : Prop := ¬ q.Everywhere (withoutTerm t)

theorem Node.isBlank_of_isIri {n : Node} (h : n.isIri = true) : n.isBlank = false := by
  cases n with
  | iri => rfl
  | _ => cases h

namespace Path

/-- Whether no step of a path goes along a blank node. -/
def HasNoBlank (p : Path) : Prop := ∀ t ∈ p.steps, t.node.isBlank = false

theorem hasNoBlank_step {t : Term} (h : t.node.isIri = true) : (Path.step t).HasNoBlank :=
  List.forall_mem_singleton.mpr (Node.isBlank_of_isIri h)

theorem hasNoBlank_of_isMember {p : Path} (h : p.IsMember) : p.HasNoBlank := by
  cases p with
  | step => exact hasNoBlank_step h
  | inverse inner =>
      cases inner with
      | step => exact hasNoBlank_step h
      | _ => exact h.elim
  | _ => exact h.elim

theorem hasNoBlank_of_isMemberChain {p : Path} (h : p.IsMemberChain) : p.HasNoBlank := by
  induction p with
  | join how left right ih _ =>
      cases how with
      | alternative => exact List.forall_mem_append.mpr ⟨ih h.1, hasNoBlank_of_isMember h.2⟩
      | sequence => exact h.elim
  | _ => exact hasNoBlank_of_isMember h

/-- A path goes along IRIs, and along the placeholder in an empty negated set. -/
theorem hasNoBlank_of_isFormed {p : Path} (h : p.IsFormed) : p.HasNoBlank := by
  induction p with
  | step => exact hasNoBlank_step h
  | inverse inner ih => exact ih h
  | repeated times inner ih => exact ih h
  | negated inner =>
      rcases h with rfl | chain
      · exact List.forall_mem_singleton.mpr rfl
      · exact hasNoBlank_of_isMemberChain (p := inner) chain
  | join how left right ihLeft ihRight =>
      exact List.forall_mem_append.mpr ⟨ihLeft h.1, ihRight h.2⟩

end Path

/-- A blank node that comes from no source occurs nowhere in a tree whose blank nodes do. -/
theorem legalChecks_together_withoutTerm {sources : List (Nat × BlankSource)} {t : Term}
    (blank : t.node.isBlank = true) (foreign : ¬ t.ComesFrom sources) :
    legalChecks.Together (sourceChecks sources) (withoutTerm t) where
  term u _ comes same := foreign (same ▸ comes)
  data _ _ _ := trivial
  expression _ _ _ := trivial
  element e legal _ member := by
    cases e with
    | path =>
        have other := Path.hasNoBlank_of_isFormed legal.1.2 t member
        rw [blank] at other
        cases other
    | _ => cases member
  group _ _ _ := trivial
  query _ _ _ := trivial

namespace QueryUnit

variable {s : Text} {unit : QueryUnit}

/-- A blank node of a query that is read has the label of the source at its offset. -/
theorem source_of_parse (h : parse s = .ok unit) {t : Term} (occurs : unit.query.Mentions t)
    {label : Text} (blank : t.node = .blank label) :
    ∃ x, (t.span.start, x) ∈ s.blankSources ∧ x.label = label := by
  obtain ⟨c, read⟩ := queryUnit_ok_of_parse h
  have comes := (Grammar.queryUnit_ok (Cursor.within_all s) read).blankNodes
  by_contra foreign
  apply occurs
  have together : legalChecks.Together (sourceChecks s.blankSources) (withoutTerm t) :=
    legalChecks_together_withoutTerm (by rw [blank]; rfl) fun found => foreign (found label blank)
  exact unit.query.everywhere_together together (legal_of_parse h).query comes

/-- Two blank nodes of a query that is read have one label if and only if they come from one written
label or from one pair of brackets, or one of them comes from a label that is written like the one
given to the pair of brackets of the other. -/
theorem label_eq_iff_of_parse (h : parse s = .ok unit) {t u : Term}
    (ht : unit.query.Mentions t) (hu : unit.query.Mentions u) {a b : Text}
    (isBlank : t.node = .blank a) (isBlank' : u.node = .blank b) :
    ∃ x y, s.blankSource? t.span.start = some x ∧ s.blankSource? u.span.start = some y ∧
      x.label = a ∧ y.label = b ∧
      (a = b ↔ (∃ label, x = .written label ∧ y = .written label) ∨ t.span.start = u.span.start ∨
        x.Collides y) := by
  obtain ⟨x, hx, rfl⟩ := source_of_parse h ht isBlank
  obtain ⟨y, hy, rfl⟩ := source_of_parse h hu isBlank'
  have foundX := Text.blankSource?_of_mem hx
  have foundY := Text.blankSource?_of_mem hy
  refine ⟨x, y, foundX, foundY, rfl, rfl, ?_⟩
  rw [BlankSource.label_eq_label_iff, ← or_assoc]
  refine or_congr_left ?_
  constructor
  · rintro rfl
    cases x with
    | written label => exact .inl ⟨label, rfl, rfl⟩
    | brackets n => exact .inr (Text.offset_eq_of_brackets hx hy)
  · rintro (⟨label, rfl, rfl⟩ | here)
    · rfl
    · rw [here, foundY] at foundX
      exact (Option.some.inj foundX).symm

/-- A text with a label that is written like the one of its first pair of brackets. -/
def collidingText : Text := utf8 "ASK\x7b_:genid0 <urn:p> [],[]\x7d"

/-- A triple of that text, with the blank node of a pair of brackets for its object. -/
def blankTriple (label : String) (start stop : Nat) : Triple where
  subject := ⟨.blank (utf8 "genid0"), ⟨4, 12⟩⟩
  predicate := ⟨.iri (utf8 "urn:p"), ⟨13, 20⟩⟩
  object := ⟨.blank (utf8 label), ⟨start, stop⟩⟩
  span := ⟨4, stop⟩

/-- What that text says: the label and the two pairs of brackets. -/
def collidingUnit : QueryUnit where
  namespaces := {}
  query :=
    { form := .ask
      resultVariables := []
      dataset := []
      root := ⟨.group, [.triple (blankTriple "genid0" 21 23), .triple (blankTriple "genid1" 24 26)],
        [], none, ⟨3, 27⟩⟩
      groupBy := []
      having := []
      orderBy := []
      limit := none
      offset := none
      values := none
      span := ⟨0, 27⟩ }

theorem parse_collidingText : parse collidingText = .ok collidingUnit := by
  set_option maxRecDepth 100000 in with_unfolding_all rfl

theorem label_eq_iff_colliding : ∃ x y,
    collidingText.blankSource? 4 = some x ∧ collidingText.blankSource? 21 = some y ∧
      x.label = y.label ∧ x.Collides y := by
  have subject : collidingUnit.query.Mentions ⟨.blank (utf8 "genid0"), ⟨4, 12⟩⟩ := by
    simp [Query.Mentions, collidingUnit, withoutTerm, Triple.Everywhere, blankTriple]
  have object : collidingUnit.query.Mentions ⟨.blank (utf8 "genid0"), ⟨21, 23⟩⟩ := by
    simp [Query.Mentions, collidingUnit, withoutTerm, Triple.Everywhere, blankTriple]
  obtain ⟨x, y, foundX, foundY, labelX, labelY, iff⟩ :=
    label_eq_iff_of_parse parse_collidingText subject object rfl rfl
  refine ⟨x, y, foundX, foundY, labelX.trans labelY.symm, ?_⟩
  rcases iff.mp rfl with ⟨label, rfl, rfl⟩ | here | collides
  · have brackets : collidingText.blankSource? 21 = some (.brackets 0) := by decide +kernel
    rw [brackets] at foundY
    cases foundY
  · cases here
  · exact collides

end QueryUnit

end SparqlMetrics
