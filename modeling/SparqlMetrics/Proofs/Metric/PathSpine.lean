import SparqlMetrics.Metric.Count
import SparqlMetrics.Proofs.Tree.Legal

/-!
# Paths are counted along their left spine

A path is counted from its root to the left for as long as it joins others: the right parts on the way
count when they are steps along IRIs, and so does what the way ends in. What is below a right part or
below an operator at the end is not looked at. Main statements: `Path.countAlong_eq`, the recursion
as a count over the spine; `Path.Replaced.countPredicates_eq`, parts that are not looked at;
`Path.countPredicates_spine`.
-/
namespace SparqlMetrics.Path

/-- The right parts on the way from a path to the left, the path's own first. -/
def rightParts : Path → List Path
  | .join _ left right => right :: left.rightParts
  | _ => []

/-- The first path on the way to the left that joins no others. -/
def leftEnd : Path → Path
  | .join _ left _ => left.leftEnd
  | p => p

/-- The path below an operator. -/
def inner? : Path → Option Path
  | .inverse inner => some inner
  | .repeated _ inner => some inner
  | .negated inner => some inner
  | _ => none

/-- Steps along IRIs joined to the left, so many of them. -/
inductive IsChain : Path → Nat → Prop
  | step {t : Term} : t.node.isIri = true → IsChain (.step t) 1
  | join {how : PathJoin} {left : Path} {t : Term} {n : Nat} : IsChain left n →
      t.node.isIri = true → IsChain (.join how left (.step t)) (n + 1)

/-- Whether a path is another one with one part of it replaced, at any depth: a right part that is no
step by a path that is none, or a left part with an operator by another path with one. -/
inductive Replaced : Path → Path → Prop
  | right {how : PathJoin} {left right right' : Path} : right.isStep = false →
      right'.isStep = false → Replaced (.join how left right) (.join how left right')
  | leftEnd {how : PathJoin} {left left' right : Path} : left.inner?.isSome = true →
      left'.inner?.isSome = true → Replaced (.join how left right) (.join how left' right)
  | inverse {inner inner' : Path} : Replaced inner inner' →
      Replaced (.inverse inner) (.inverse inner')
  | repeated {times : Repetition} {inner inner' : Path} : Replaced inner inner' →
      Replaced (.repeated times inner) (.repeated times inner')
  | negated {inner inner' : Path} : Replaced inner inner' →
      Replaced (.negated inner) (.negated inner')
  | inLeft {how : PathJoin} {left left' right : Path} : Replaced left left' →
      Replaced (.join how left right) (.join how left' right)
  | inRight {how : PathJoin} {left right right' : Path} : Replaced right right' →
      Replaced (.join how left right) (.join how left right')

variable {p q inner : Path} {n : Nat}

/-- What a path adds to the count of a join that it is the left part of. -/
def countAlong (p : Path) : Nat := if p.isIriStep then 1 else p.countJoin

theorem countAlong_join (how : PathJoin) (left right : Path) :
    (join how left right).countAlong = tally right.isIriStep + left.countAlong := rfl

/-- Along the spine the right parts are counted, and what it ends in. -/
theorem countAlong_eq (p : Path) :
    p.countAlong = p.rightParts.countP isIriStep + tally p.leftEnd.isIriStep := by
  induction p with
  | join how left right ihLeft _ =>
      rw [countAlong_join, ihLeft, rightParts, leftEnd, List.countP_cons, tally]
      omega
  | _ => exact (Nat.zero_add _).symm

theorem countPredicates_of_inner? (h : p.inner? = some inner) :
    p.countPredicates = tally inner.isIriStep := by
  cases p <;> cases h <;> rfl

theorem countPredicates_of_none (h : p.inner? = none) : p.countPredicates = p.countAlong := by
  cases p with
  | step t => rfl
  | join how left right => rfl
  | _ => cases h

/-! ## The steps of a path -/

theorem length_iris_step {t : Term} (isIri : t.node.isIri = true) : (step t).iris.length = 1 := by
  obtain ⟨_ | _ | _ | _, _⟩ := t
  · rfl
  all_goals cases isIri

theorem tally_isIriStep_le (p : Path) : tally p.isIriStep ≤ p.iris.length := by
  cases step : p.isIriStep with
  | false => exact Nat.zero_le _
  | true =>
      cases p with
      | step t => exact Nat.le_of_eq (length_iris_step step).symm
      | _ => cases step

theorem countAlong_le (p : Path) : p.countAlong ≤ p.iris.length := by
  induction p with
  | join how left right ihLeft _ =>
      have last := tally_isIriStep_le right
      rw [countAlong_join, iris, List.length_append]
      omega
  | step t => exact tally_isIriStep_le (step t)
  | _ => exact Nat.zero_le _

theorem countPredicates_le (p : Path) : p.countPredicates ≤ p.iris.length := by
  cases below : p.inner? with
  | none => exact countPredicates_of_none below ▸ countAlong_le p
  | some inner =>
      rw [countPredicates_of_inner? below]
      have steps : p.iris = inner.iris := by cases p <;> cases below <;> rfl
      exact steps ▸ tally_isIriStep_le inner

/-- In a chain to the left every step is counted. -/
theorem IsChain.countAlong_eq (h : p.IsChain n) : p.countAlong = n ∧ p.iris.length = n := by
  induction h with
  | step isIri => exact ⟨if_pos isIri, length_iris_step isIri⟩
  | @join how left t n _ isIri ih =>
      have last : (Path.step t).isIriStep = true := isIri
      rw [countAlong_join, iris, List.length_append, length_iris_step isIri, last, ih.1, ih.2]
      exact ⟨Nat.add_comm 1 n, rfl⟩

theorem IsChain.inner? (h : p.IsChain n) : p.inner? = none := by
  cases h <;> rfl

/-! ## Parts that are not looked at -/

theorem isIriStep_of_not_isStep (h : p.isStep = false) : p.isIriStep = false := by
  cases p with
  | step t => cases h
  | _ => rfl

theorem countAlong_of_isSome (h : p.inner?.isSome = true) : p.countAlong = 0 := by
  cases p with
  | step t => cases h
  | join how left right => cases h
  | _ => rfl

/-- A path with a part to replace is no step. -/
theorem Replaced.not_isStep (h : p.Replaced q) : p.isStep = false ∧ q.isStep = false := by
  cases h <;> exact ⟨rfl, rfl⟩

theorem Replaced.isIriStep_eq (h : p.Replaced q) : q.isIriStep = p.isIriStep := by
  rw [isIriStep_of_not_isStep h.not_isStep.1, isIriStep_of_not_isStep h.not_isStep.2]

theorem Replaced.countAlong_eq (h : p.Replaced q) : q.countAlong = p.countAlong := by
  induction h with
  | @right how left right right' plain plain' =>
      rw [countAlong_join, countAlong_join, isIriStep_of_not_isStep plain,
        isIriStep_of_not_isStep plain']
  | @leftEnd how left left' right unary unary' =>
      rw [countAlong_join, countAlong_join, countAlong_of_isSome unary,
        countAlong_of_isSome unary']
  | @inLeft how left left' right _ ih => rw [countAlong_join, countAlong_join, ih]
  | @inRight how left right right' replaced _ =>
      rw [countAlong_join, countAlong_join, replaced.isIriStep_eq]
  | inverse => rfl
  | repeated => rfl
  | negated => rfl

theorem Replaced.countPredicates_eq (h : p.Replaced q) :
    q.countPredicates = p.countPredicates := by
  have along := h.countAlong_eq
  cases h with
  | inverse below => exact congrArg tally below.isIriStep_eq
  | repeated below => exact congrArg tally below.isIriStep_eq
  | negated below => exact congrArg tally below.isIriStep_eq
  | _ => exact along

/-- A step counts when it is along an IRI, a path with an operator when what is below it is such a
step. A join counts those of the right parts along its left spine that are such steps, and what the
spine ends in if it is one. So a path counts no more than its steps along IRIs, and all of them when
they are joined to the left; what is below a right part, or below an operator where a spine ends, does
not matter. -/
theorem countPredicates_spine (p : Path) :
    (∀ t, p = .step t → p.countPredicates = tally t.node.isIri) ∧
    (∀ inner, p.inner? = some inner → p.countPredicates = tally inner.isIriStep) ∧
    (p.isJoin = true → p.countPredicates =
      p.rightParts.countP isIriStep + tally p.leftEnd.isIriStep) ∧
    p.countPredicates ≤ p.iris.length ∧
    (∀ n, p.IsChain n → p.countPredicates = n ∧ p.iris.length = n) ∧
    ∀ q, p.Replaced q → q.countPredicates = p.countPredicates := by
  refine ⟨?_, fun inner below => countPredicates_of_inner? below, fun join => ?_,
    countPredicates_le p, fun n chain => ?_, fun q replaced => replaced.countPredicates_eq⟩
  · rintro t rfl
    rfl
  · have noInner : p.inner? = none := by
      cases p with
      | join how left right => rfl
      | _ => cases join
    rw [countPredicates_of_none noInner, countAlong_eq]
  · rw [countPredicates_of_none chain.inner?]
    exact chain.countAlong_eq

/-- The inverse step at the left end and the join on the right are not looked at. -/
example (t u v w : Text) (how : PathJoin) :
    let iri (value : Text) : Path := .step { node := .iri value }
    (join how (join how (inverse (iri t)) (iri u)) (join how (iri v) (iri w))).countPredicates = 1 :=
  rfl

end SparqlMetrics.Path
