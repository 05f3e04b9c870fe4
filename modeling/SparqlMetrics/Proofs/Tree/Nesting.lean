import Mathlib.Tactic.Tauto
import SparqlMetrics.Proofs.Tree.Everywhere
import SparqlMetrics.Written.Query

/-!
# The nesting of written trees

How many levels of nesting it takes to read what is written for a tree: one for every operand, for
every pair of brackets around an expression or a path, and for every group. A tree fits an allowance
if it takes no more levels, and if none of its comparisons has another one on its left: that one is
written without brackets, where a comparison cannot go on.
-/
namespace SparqlMetrics

/-- The nesting of a part that is written between brackets if it needs them. -/
def nestingIn (bracketed : Bool) (inner : Nat) : Nat := if bracketed then inner + 1 else inner

def Path.nesting : Path → Nat
  | .step _ => 0
  | .inverse inner => nestingIn (!inner.isElement) inner.nesting
  | .repeated _ inner => nestingIn (!inner.isPrimary) inner.nesting
  | .negated _ => 0
  | .join how left right =>
    max (nestingIn (left.breaksLeft how) left.nesting) (nestingIn right.isJoin right.nesting)

mutual

@[simp] def Expression.nesting : Expression → Nat
  | .term _ _ => 1
  | .unary _ [] _ => 1
  | .unary _ (operand :: _) _ => nestingIn operand.breaksUnary operand.nesting + 1
  | .binary op [left, right] _ =>
    max (nestingIn (left.breaksBinary (precedence op) false) left.nesting)
      (nestingIn (right.breaksBinary (precedence op) true) right.nesting)
  | .binary _ args _ => Expression.nestingOfAll args
  | .call _ _ args _ => Expression.nestingOfAll args + 1
  | .aggregate _ _ _ args _ _ => Expression.nestingOfAll args + 1
  | .member _ [] _ => 0
  | .member _ (left :: items) _ =>
    max (nestingIn (left.breaksBinary comparisonPrecedence false) left.nesting)
      (Expression.nestingOfAll items)
  | .exists _ none _ => 1
  | .exists _ (some pattern) _ => pattern.nesting + 1

@[simp] def Expression.nestingOfAll : List Expression → Nat
  | [] => 0
  | e :: rest => max e.nesting (Expression.nestingOfAll rest)

/-- The nesting of an element in writing. A constraint that stands alone is no operand. -/
@[simp] def Element.nesting : Element → Nat
  | .triple _ => 0
  | .path _ p _ _ => p.nesting
  | .filter condition _ =>
    if condition.standsAlone false then condition.nesting - 1 else condition.nesting
  | .subquery none _ => 0
  | .subquery (some query) _ => query.nesting
  | .bind value _ _ => value.nesting

@[simp] def Element.nestingOfAll : List Element → Nat
  | [] => 0
  | e :: rest => max e.nesting (Element.nestingOfAll rest)

/-- The nesting of a group in writing. A union is as deep as its alternatives. -/
@[simp] def Group.nesting : Group → Nat
  | ⟨kind, elements, children, _, _⟩ =>
    if kind.isUnion then Group.nestingOfAll children
    else max (Element.nestingOfAll elements) (Group.nestingOfAll children) + 1

@[simp] def Group.nestingOfAll : List Group → Nat
  | [] => 0
  | g :: rest => max g.nesting (Group.nestingOfAll rest)

@[simp] def Projection.nestingOfAll : List Projection → Nat
  | [] => 0
  | ⟨_, none, _⟩ :: rest => Projection.nestingOfAll rest
  | ⟨_, some value, _⟩ :: rest => max value.nesting (Projection.nestingOfAll rest)

@[simp] def Form.nesting : Form → Nat
  | .select _ _ items => Projection.nestingOfAll items
  | _ => 0

@[simp] def GroupCondition.nestingOfAll : List GroupCondition → Nat
  | [] => 0
  | ⟨value, some _⟩ :: rest => max value.nesting (GroupCondition.nestingOfAll rest)
  | ⟨value, none⟩ :: rest =>
    max (if value.standsAlone true then value.nesting - 1 else value.nesting)
      (GroupCondition.nestingOfAll rest)

@[simp] def Expression.nestingOfConstraints : List Expression → Nat
  | [] => 0
  | value :: rest =>
    max (if value.standsAlone false then value.nesting - 1 else value.nesting)
      (Expression.nestingOfConstraints rest)

@[simp] def OrderCondition.nestingOfAll : List OrderCondition → Nat
  | [] => 0
  | ⟨value, .unmarked⟩ :: rest =>
    max (if value.standsAlone true then value.nesting - 1 else value.nesting)
      (OrderCondition.nestingOfAll rest)
  | ⟨value, _⟩ :: rest => max value.nesting (OrderCondition.nestingOfAll rest)

/-- The nesting of a query in writing. -/
@[simp] def Query.nesting : Query → Nat
  | ⟨form, _, _, root, groupBy, having, orderBy, _, _, _, _⟩ =>
    max (max form.nesting root.nesting)
      (max (GroupCondition.nestingOfAll groupBy)
        (max (Expression.nestingOfConstraints having) (OrderCondition.nestingOfAll orderBy)))

end

namespace Expression

def isComparison : Expression → Bool
  | .binary op _ _ => precedence op == comparisonPrecedence
  | _ => false

/-- Whether a comparison or a membership test has no comparison on its left. -/
@[simp] def IsUnchained : Expression → Prop
  | .binary op (left :: _) _ => precedence op = comparisonPrecedence → left.isComparison = false
  | .member _ (left :: _) _ => left.isComparison = false
  | _ => True

end Expression

/-- The check that no comparison has another one on its left. -/
def unchainedChecks : NodeChecks where
  expression := Expression.IsUnchained

/-- Whether an expression can be read back where a number of levels is allowed. -/
def Expression.Fits (n : Nat) (e : Expression) : Prop :=
  e.nesting ≤ n ∧ e.Everywhere unchainedChecks

/-- Whether an expression fits that is written between brackets if it needs them. -/
def Expression.FitsIn (bracketed : Bool) (n : Nat) (e : Expression) : Prop :=
  nestingIn bracketed e.nesting ≤ n ∧ e.Everywhere unchainedChecks

/-- Whether an expression fits as a constraint. -/
def Expression.FitsAlone (allowVariable : Bool) (n : Nat) (e : Expression) : Prop :=
  if e.standsAlone allowVariable then e.Fits (n + 1) else e.Fits n

/-- Whether an element can be read back where a number of levels is allowed. -/
def Element.Fits (n : Nat) (e : Element) : Prop := e.nesting ≤ n ∧ e.Everywhere unchainedChecks

/-- Whether a group can be read back where a number of levels is allowed. -/
def Group.Fits (n : Nat) (g : Group) : Prop := g.nesting ≤ n ∧ g.Everywhere unchainedChecks

/-- Whether a query can be read back where a number of levels is allowed. -/
def Query.Fits (n : Nat) (q : Query) : Prop := q.nesting ≤ n ∧ q.Everywhere unchainedChecks

def Projection.Fits (n : Nat) (p : Projection) : Prop := ∀ e, p.value = some e → e.Fits n

def GroupCondition.Fits (n : Nat) (c : GroupCondition) : Prop :=
  if c.name.isSome then c.value.Fits n else c.value.FitsAlone true n

def OrderCondition.Fits (n : Nat) (c : OrderCondition) : Prop :=
  if c.direction = .unmarked then c.value.FitsAlone true n else c.value.Fits n

section Operands
variable {n : Nat} {e : Expression}

theorem Expression.fitsIn_true : e.FitsIn true (n + 1) ↔ e.Fits n :=
  and_congr_left' Nat.add_le_add_iff_right

theorem Expression.not_fitsIn_zero : ¬ e.FitsIn true 0 := fun h => absurd h.1 (Nat.not_succ_le_zero _)

theorem Expression.fitsAlone_iff {allowVariable : Bool} : e.FitsAlone allowVariable n ↔
    (if e.standsAlone allowVariable then e.nesting - 1 else e.nesting) ≤ n ∧
      e.Everywhere unchainedChecks := by
  unfold FitsAlone
  split
  · exact and_congr_left' (by omega)
  · exact Iff.rfl

end Operands

section Lists
variable {n : Nat}

theorem Expression.fitsAll_iff {es : List Expression} :
    Expression.nestingOfAll es ≤ n ∧ Expression.EverywhereAll unchainedChecks es ↔
      ∀ e ∈ es, e.Fits n := by
  induction es with
  | nil => simp [Expression.nestingOfAll, Expression.EverywhereAll]
  | cons e rest ih =>
      rw [List.forall_mem_cons, ← ih, Expression.nestingOfAll, Expression.EverywhereAll,
        Nat.max_le, Fits]
      exact and_and_and_comm

theorem Element.fitsAll_iff {es : List Element} :
    Element.nestingOfAll es ≤ n ∧ Element.EverywhereAll unchainedChecks es ↔
      ∀ e ∈ es, e.Fits n := by
  induction es with
  | nil => simp [Element.nestingOfAll, Element.EverywhereAll]
  | cons e rest ih =>
      rw [List.forall_mem_cons, ← ih, Element.nestingOfAll, Element.EverywhereAll, Nat.max_le,
        Fits]
      exact and_and_and_comm

theorem Group.fitsAll_iff {gs : List Group} :
    Group.nestingOfAll gs ≤ n ∧ Group.EverywhereAll unchainedChecks gs ↔ ∀ g ∈ gs, g.Fits n := by
  induction gs with
  | nil => simp [Group.nestingOfAll, Group.EverywhereAll]
  | cons g rest ih =>
      rw [List.forall_mem_cons, ← ih, Group.nestingOfAll, Group.EverywhereAll, Nat.max_le, Fits]
      exact and_and_and_comm

theorem Projection.fitsAll_iff {ps : List Projection} :
    Projection.nestingOfAll ps ≤ n ∧ Projection.EverywhereAll unchainedChecks ps ↔
      ∀ p ∈ ps, p.Fits n := by
  induction ps with
  | nil => simp [Projection.nestingOfAll, Projection.EverywhereAll]
  | cons p rest ih =>
      obtain ⟨name, value, span⟩ := p
      rw [List.forall_mem_cons, ← ih]
      cases value with
      | none => simp [Projection.Fits, Projection.nestingOfAll, Projection.EverywhereAll]
      | some value =>
          simp only [Projection.Fits, Projection.nestingOfAll, Projection.EverywhereAll, Nat.max_le,
            Option.some.injEq, forall_eq', Expression.Fits]
          exact and_and_and_comm

theorem GroupCondition.fitsAll_iff {cs : List GroupCondition} :
    GroupCondition.nestingOfAll cs ≤ n ∧ GroupCondition.EverywhereAll unchainedChecks cs ↔
      ∀ c ∈ cs, c.Fits n := by
  induction cs with
  | nil => simp [GroupCondition.nestingOfAll, GroupCondition.EverywhereAll]
  | cons c rest ih =>
      obtain ⟨value, name⟩ := c
      rw [List.forall_mem_cons, ← ih, GroupCondition.EverywhereAll]
      cases name with
      | none =>
          simp only [GroupCondition.Fits, GroupCondition.nestingOfAll, Nat.max_le,
            Option.isSome_none, Bool.false_eq_true, if_false, Expression.fitsAlone_iff]
          exact and_and_and_comm
      | some name =>
          simp only [GroupCondition.Fits, GroupCondition.nestingOfAll, Nat.max_le,
            Option.isSome_some, if_true, Expression.Fits]
          exact and_and_and_comm

theorem Expression.fitsConstraints_iff {es : List Expression} :
    Expression.nestingOfConstraints es ≤ n ∧ Expression.EverywhereAll unchainedChecks es ↔
      ∀ e ∈ es, e.FitsAlone false n := by
  induction es with
  | nil => simp [Expression.nestingOfConstraints, Expression.EverywhereAll]
  | cons e rest ih =>
      rw [List.forall_mem_cons, ← ih, Expression.nestingOfConstraints, Expression.EverywhereAll,
        Nat.max_le, fitsAlone_iff]
      exact and_and_and_comm

theorem OrderCondition.fitsAll_iff {cs : List OrderCondition} :
    OrderCondition.nestingOfAll cs ≤ n ∧ OrderCondition.EverywhereAll unchainedChecks cs ↔
      ∀ c ∈ cs, c.Fits n := by
  induction cs with
  | nil => simp [OrderCondition.nestingOfAll, OrderCondition.EverywhereAll]
  | cons c rest ih =>
      obtain ⟨value, direction⟩ := c
      rw [List.forall_mem_cons, ← ih, OrderCondition.EverywhereAll]
      cases direction with
      | unmarked =>
          simp only [OrderCondition.Fits, OrderCondition.nestingOfAll, Nat.max_le, if_true,
            Expression.fitsAlone_iff]
          exact and_and_and_comm
      | _ =>
          simp only [OrderCondition.Fits, OrderCondition.nestingOfAll, Nat.max_le, reduceCtorEq,
            if_false, Expression.Fits]
          exact and_and_and_comm

end Lists

section Nodes
variable {n : Nat} {span : Span}

theorem Expression.fits_term {t : Term} : (term t span).Fits n ↔ 1 ≤ n := by
  simp [Fits, nesting, Everywhere, unchainedChecks, IsUnchained]

theorem Expression.fits_unary {op : Text} {operand : Expression} :
    (unary op [operand] span).Fits (n + 1) ↔ operand.FitsIn operand.breaksUnary n := by
  simp [Fits, FitsIn, nesting, Everywhere, EverywhereAll, unchainedChecks, IsUnchained]

theorem Expression.fits_binary {op : Text} {left right : Expression} :
    (binary op [left, right] span).Fits n ↔
      (precedence op = comparisonPrecedence → left.isComparison = false) ∧
        left.FitsIn (left.breaksBinary (precedence op) false) n ∧
        right.FitsIn (right.breaksBinary (precedence op) true) n := by
  have check : unchainedChecks.expression (binary op [left, right] span) ↔
      (precedence op = comparisonPrecedence → left.isComparison = false) := Iff.rfl
  simp only [Fits, FitsIn, nesting, Everywhere, EverywhereAll, Nat.max_le, check]
  tauto

theorem Expression.fits_call {callee : Callee} {distinct : Bool} {args : List Expression} :
    (call callee distinct args span).Fits (n + 1) ↔ ∀ e ∈ args, e.Fits n := by
  have check : unchainedChecks.expression (call callee distinct args span) := trivial
  have names : callee.Everywhere unchainedChecks := by cases callee <;> trivial
  rw [← fitsAll_iff, Fits, nesting, Everywhere]
  exact and_congr Nat.add_le_add_iff_right (by tauto)

theorem Expression.fits_aggregate {name : Text} {distinct star : Bool} {args : List Expression}
    {separator : Option Text} :
    (aggregate name distinct star args separator span).Fits (n + 1) ↔ ∀ e ∈ args, e.Fits n := by
  have check : unchainedChecks.expression (aggregate name distinct star args separator span) :=
    trivial
  rw [← fitsAll_iff, Fits, nesting, Everywhere]
  exact and_congr Nat.add_le_add_iff_right (by tauto)

theorem Expression.fits_member {negated : Bool} {left : Expression} {items : List Expression} :
    (member negated (left :: items) span).Fits n ↔
      left.isComparison = false ∧
        left.FitsIn (left.breaksBinary comparisonPrecedence false) n ∧ ∀ e ∈ items, e.Fits n := by
  have check : unchainedChecks.expression (member negated (left :: items) span) ↔
      left.isComparison = false := Iff.rfl
  rw [← fitsAll_iff]
  simp only [Fits, FitsIn, nesting, Everywhere, EverywhereAll, Nat.max_le, check]
  tauto

theorem Expression.fits_exists {negated : Bool} {pattern : Group} :
    (Expression.exists negated (some pattern) span).Fits (n + 1) ↔ pattern.Fits n := by
  have check : unchainedChecks.expression (.exists negated (some pattern) span) := trivial
  rw [Fits, nesting, Everywhere]
  exact and_congr Nat.add_le_add_iff_right (and_iff_right check)

/-- Where nothing may nest, only operands between operators could fit, and they do not. -/
theorem Expression.not_fits_zero {e : Expression} (h : 1 ≤ e.nesting) : ¬ e.Fits 0 :=
  fun fits => absurd (Nat.le_trans h fits.1) (by decide)

theorem Element.fits_triple {t : Triple} : (triple t).Fits n := by
  simp [Fits, nesting, Everywhere, Triple.Everywhere, unchainedChecks]

theorem Element.fits_path {subject object : Term} {p : Path} :
    (path subject p object span).Fits n ↔ p.nesting ≤ n := by
  simp [Fits, nesting, Everywhere, unchainedChecks]

theorem Element.fits_filter {condition : Expression} :
    (filter condition span).Fits n ↔ condition.FitsAlone false n := by
  rw [Expression.fitsAlone_iff]
  simp [Fits, nesting, Everywhere, unchainedChecks]

theorem Element.fits_subquery {query : Query} :
    (subquery (some query) span).Fits n ↔ query.Fits n := by
  simp [Fits, Query.Fits, nesting, Everywhere, unchainedChecks]

theorem Element.fits_bind {value : Expression} {target : Term} :
    (bind value target span).Fits n ↔ value.Fits n := by
  simp [Fits, Expression.Fits, nesting, Everywhere, unchainedChecks]

variable {kind : GroupKind} {elements : List Element} {children : List Group}
  {data : Option InlineData}

theorem tableEverywhere_unchained (data : Option InlineData) :
    tableEverywhere unchainedChecks data := by
  cases data with
  | none => trivial
  | some d => exact ⟨trivial, fun _ _ _ _ => trivial⟩

theorem GroupKind.everywhere_unchained (kind : GroupKind) : kind.Everywhere unchainedChecks := by
  rcases kind with _ | _ | _ | _ | (_ | name) | ⟨_ | endpoint, silent⟩ <;> trivial

theorem Group.fits_union (h : kind.isUnion = true) (noElements : elements = []) :
    Group.Fits n ⟨kind, elements, children, data, span⟩ ↔ ∀ g ∈ children, g.Fits n := by
  have check : unchainedChecks.group ⟨kind, elements, children, data, span⟩ := trivial
  have table := tableEverywhere_unchained data
  have kinds := kind.everywhere_unchained
  rw [← fitsAll_iff, Fits, nesting, if_pos h, Everywhere, noElements, Element.EverywhereAll]
  tauto

theorem Group.fits_braces (h : kind.isUnion = false) :
    Group.Fits (n + 1) ⟨kind, elements, children, data, span⟩ ↔
      (∀ e ∈ elements, e.Fits n) ∧ ∀ g ∈ children, g.Fits n := by
  have check : unchainedChecks.group ⟨kind, elements, children, data, span⟩ := trivial
  have table := tableEverywhere_unchained data
  have kinds := kind.everywhere_unchained
  rw [← fitsAll_iff, ← Element.fitsAll_iff, Fits, nesting, h, if_neg (by decide), Everywhere,
    Nat.add_le_add_iff_right, Nat.max_le]
  tauto

theorem Group.not_fits_zero (h : kind.isUnion = false) :
    ¬ Group.Fits 0 ⟨kind, elements, children, data, span⟩ := by
  rw [Fits, nesting, h, if_neg (by decide)]
  exact fun fits => absurd fits.1 (Nat.not_succ_le_zero _)

theorem Form.everywhere_unchained {form : Form} : form.nesting ≤ n ∧
    form.Everywhere unchainedChecks ↔
      ∀ modifier everything items, form = .select modifier everything items →
        ∀ p ∈ items, p.Fits n := by
  cases form with
  | select modifier everything items =>
      have items' : Projection.nestingOfAll items ≤ n ∧ Projection.EverywhereAll unchainedChecks items ↔
          ∀ p ∈ items, p.Fits n := Projection.fitsAll_iff
      simp only [nesting, Everywhere, select.injEq, and_imp]
      rw [items']
      exact ⟨fun h _ _ _ _ _ same => same ▸ h, fun h => h _ _ _ rfl rfl rfl⟩
  | _ => simp [nesting, Everywhere, Triple.Everywhere, unchainedChecks]

theorem Query.fits_iff {q : Query} : q.Fits n ↔
    (∀ modifier everything items, q.form = .select modifier everything items →
      ∀ p ∈ items, p.Fits n) ∧ q.root.Fits n ∧ (∀ c ∈ q.groupBy, c.Fits n) ∧
      (∀ e ∈ q.having, e.FitsAlone false n) ∧ ∀ c ∈ q.orderBy, c.Fits n := by
  obtain ⟨form, names, dataset, root, groupBy, having, orderBy, limit, offset, values, span⟩ := q
  have check : unchainedChecks.query ⟨form, names, dataset, root, groupBy, having, orderBy, limit,
    offset, values, span⟩ := trivial
  have table := tableEverywhere_unchained values
  simp only [← Form.everywhere_unchained, ← GroupCondition.fitsAll_iff,
    ← Expression.fitsConstraints_iff, ← OrderCondition.fitsAll_iff, Fits, Group.Fits, nesting,
    Everywhere, Nat.max_le]
  tauto

end Nodes

end SparqlMetrics
