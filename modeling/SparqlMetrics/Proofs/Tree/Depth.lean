import SparqlMetrics.Written.Query

/-!
# The depth of trees

How deep a pass over a tree goes, as several gauges measure it: a gauge says what a node adds to the
depth of a tree, and a chain that was built to the left may count less than its length.
`Gauge.height` counts every node on the longest way down, `Gauge.runs` counts a run of operators of
one precedence, or of one join of paths, once, and `Gauge.lists` counts only the membership tests
that stand in the list of another one. `Depth.Within` bounds the second measure where each of these
brings three levels of its own.
-/
namespace SparqlMetrics

/-- What the nodes of a tree add to its depth. -/
structure Gauge where
  /-- A node that no other field speaks of. -/
  step : Nat
  /-- A binary operator, on the way to its first operand. -/
  operator : Text → Expression → Nat
  /-- A join of paths, on the way to its left part. -/
  join : PathJoin → Path → Nat
  /-- A membership test, on the way to an item of its list. -/
  member : Expression → Nat

/-- Whether an operand goes on with the run of a binary operator. Comparisons have none. -/
def Expression.isRunOf (op : Text) : Expression → Bool
  | .binary inner _ _ => precedence inner == precedence op && precedence op != comparisonPrecedence
  | _ => false

/-- Whether a part goes on with the run of a join. -/
def Path.isRunOf (how : PathJoin) : Path → Bool
  | .join inner _ _ => inner == how
  | _ => false

mutual

/-- Whether an expression is a membership test, or a conjunction or disjunction with one. -/
def Expression.showsTest : Expression → Bool
  | .member _ _ _ => true
  | .binary op args _ => decide (precedence op < comparisonPrecedence) && Expression.anyShowsTest args
  | _ => false

/-- Whether some expression is a membership test, or a conjunction or disjunction with one. -/
def Expression.anyShowsTest : List Expression → Bool
  | [] => false
  | e :: rest => e.showsTest || Expression.anyShowsTest rest

end

namespace Gauge

def height : Gauge := ⟨1, fun _ _ => 1, fun _ _ => 1, fun _ => 1⟩

/-- Every node counts, the nodes of a run once. -/
def runs : Gauge where
  step := 1
  operator op left := if left.isRunOf op then 0 else 1
  join how left := if left.isRunOf how then 0 else 1
  member _ := 1

/-- Only a membership test counts that another one has in its list. -/
def lists : Gauge :=
  ⟨0, fun _ _ => 0, fun _ _ => 0, fun item => if item.showsTest then 1 else 0⟩

section Fields
variable (op : Text) (e : Expression) (how : PathJoin) (p : Path)

@[simp] theorem runs_step : runs.step = 1 := rfl
@[simp] theorem runs_member : runs.member e = 1 := rfl
@[simp] theorem lists_step : lists.step = 0 := rfl
@[simp] theorem lists_operator : lists.operator op e = 0 := rfl
@[simp] theorem lists_join : lists.join how p = 0 := rfl

theorem lists_member : lists.member e = if e.showsTest then 1 else 0 := rfl

theorem runs_operator_le : runs.operator op e ≤ 1 := by
  simp only [runs]
  split <;> decide

theorem runs_join_le : runs.join how p ≤ 1 := by
  simp only [runs]
  split <;> decide

end Fields

end Gauge

def Path.depth (g : Gauge) : Path → Nat
  | .step _ => g.step
  | .inverse inner => g.step + inner.depth g
  | .repeated _ inner => g.step + inner.depth g
  | .negated inner => g.step + inner.depth g
  | .join how left right => max (g.join how left + left.depth g) (g.step + right.depth g)

mutual

def Expression.depth (g : Gauge) : Expression → Nat
  | .term _ _ => g.step
  | .unary _ args _ => g.step + Expression.depthAll g args
  | .binary _ [] _ => g.step
  | .binary op (left :: rest) _ =>
    max (g.operator op left + left.depth g) (g.step + Expression.depthAll g rest)
  | .call _ _ args _ => g.step + Expression.depthAll g args
  | .aggregate _ _ _ args _ _ => g.step + Expression.depthAll g args
  | .member _ [] _ => g.step
  | .member _ (left :: items) _ => max (g.step + left.depth g) (Expression.depthItems g items)
  | .exists _ none _ => g.step
  | .exists _ (some pattern) _ => g.step + pattern.depth g

def Expression.depthAll (g : Gauge) : List Expression → Nat
  | [] => 0
  | e :: rest => max (e.depth g) (Expression.depthAll g rest)

/-- The depth of a membership test on the way to the items of its list. -/
def Expression.depthItems (g : Gauge) : List Expression → Nat
  | [] => 0
  | item :: rest => max (g.member item + item.depth g) (Expression.depthItems g rest)

def Element.depth (g : Gauge) : Element → Nat
  | .triple _ => 0
  | .path _ p _ _ => p.depth g
  | .filter condition _ => condition.depth g
  | .subquery none _ => 0
  | .subquery (some query) _ => query.depth g
  | .bind value _ _ => value.depth g

def Element.depthAll (g : Gauge) : List Element → Nat
  | [] => 0
  | e :: rest => max (e.depth g) (Element.depthAll g rest)

def Group.depth (g : Gauge) : Group → Nat
  | ⟨_, elements, children, _, _⟩ =>
    g.step + max (Element.depthAll g elements) (Group.depthAll g children)

def Group.depthAll (g : Gauge) : List Group → Nat
  | [] => 0
  | group :: rest => max (group.depth g) (Group.depthAll g rest)

def Projection.depthAll (g : Gauge) : List Projection → Nat
  | [] => 0
  | ⟨_, none, _⟩ :: rest => Projection.depthAll g rest
  | ⟨_, some value, _⟩ :: rest => max (value.depth g) (Projection.depthAll g rest)

def Form.depth (g : Gauge) : Form → Nat
  | .select _ _ items => Projection.depthAll g items
  | _ => 0

def GroupCondition.depthAll (g : Gauge) : List GroupCondition → Nat
  | [] => 0
  | ⟨value, _⟩ :: rest => max (value.depth g) (GroupCondition.depthAll g rest)

def OrderCondition.depthAll (g : Gauge) : List OrderCondition → Nat
  | [] => 0
  | ⟨value, _⟩ :: rest => max (value.depth g) (OrderCondition.depthAll g rest)

/-- The depth of the deepest of all the trees of a query. -/
def Query.depth (g : Gauge) : Query → Nat
  | ⟨form, _, _, root, groupBy, having, orderBy, _, _, _, _⟩ =>
    max (max (form.depth g) (root.depth g))
      (max (GroupCondition.depthAll g groupBy)
        (max (Expression.depthAll g having) (OrderCondition.depthAll g orderBy)))

end

/-- A depth as every gauge measures it. -/
abbrev Depth := Gauge → Nat

/-- Whether a depth stays within a bound when a run counts once, apart from three levels for each
membership test on the way down that is in the list of another one. -/
def Depth.Within (bound : Nat) (d : Depth) : Prop := d .runs ≤ bound + 3 * d .lists

namespace Depth
variable {b c : Nat} {d e : Depth}

theorem within_zero : Within b fun _ => 0 := Nat.zero_le _

theorem Within.mono (h : Within b d) (le : b ≤ c) : Within c d :=
  Nat.le_trans h (Nat.add_le_add_right le _)

theorem Within.max (hd : Within b d) (he : Within b e) : Within b fun g => max (d g) (e g) := by
  simp only [Within] at *
  omega

theorem Within.step (h : Within b d) : Within (b + 1) fun g => g.step + d g := by
  simp only [Within, Gauge.runs_step, Gauge.lists_step] at *
  omega

theorem within_step : Within (b + 1) fun g => g.step := within_zero.step

end Depth

abbrev Expression.Within (b : Nat) (e : Expression) : Prop := Depth.Within b fun g => e.depth g

/-- Whether an expression stays within a bound, or within three levels more if it shows a membership
test. -/
def Expression.ShowsWithin (b : Nat) (e : Expression) : Prop :=
  e.Within (b + 3) ∧ (e.showsTest = false → e.Within b)

abbrev Path.Within (b : Nat) (p : Path) : Prop := Depth.Within b fun g => p.depth g

abbrev Element.Within (b : Nat) (e : Element) : Prop := Depth.Within b fun g => e.depth g

abbrev Group.Within (b : Nat) (group : Group) : Prop := Depth.Within b fun g => group.depth g

abbrev Form.Within (b : Nat) (form : Form) : Prop := Depth.Within b fun g => form.depth g

abbrev Query.Within (b : Nat) (q : Query) : Prop := Depth.Within b fun g => q.depth g

section Lists
variable {b : Nat}

theorem Expression.within_all {es : List Expression} (h : ∀ e ∈ es, e.Within b) :
    Depth.Within b fun g => Expression.depthAll g es := by
  induction es with
  | nil => exact Depth.within_zero
  | cons e rest ih =>
      rw [List.forall_mem_cons] at h
      exact h.1.max (ih h.2)

theorem Element.within_all {es : List Element} (h : ∀ e ∈ es, e.Within b) :
    Depth.Within b fun g => Element.depthAll g es := by
  induction es with
  | nil => exact Depth.within_zero
  | cons e rest ih =>
      rw [List.forall_mem_cons] at h
      exact h.1.max (ih h.2)

theorem Group.within_all {gs : List Group} (h : ∀ g ∈ gs, g.Within b) :
    Depth.Within b fun g => Group.depthAll g gs := by
  induction gs with
  | nil => exact Depth.within_zero
  | cons g rest ih =>
      rw [List.forall_mem_cons] at h
      exact h.1.max (ih h.2)

theorem Projection.within_all {ps : List Projection}
    (h : ∀ p ∈ ps, ∀ e, p.value = some e → e.Within b) :
    Depth.Within b fun g => Projection.depthAll g ps := by
  induction ps with
  | nil => exact Depth.within_zero
  | cons p rest ih =>
      rw [List.forall_mem_cons] at h
      obtain ⟨name, value, span⟩ := p
      cases value with
      | none => exact ih h.2
      | some value => exact (h.1 value rfl).max (ih h.2)

theorem GroupCondition.within_all {cs : List GroupCondition} (h : ∀ c ∈ cs, c.value.Within b) :
    Depth.Within b fun g => GroupCondition.depthAll g cs := by
  induction cs with
  | nil => exact Depth.within_zero
  | cons c rest ih =>
      rw [List.forall_mem_cons] at h
      cases c
      exact h.1.max (ih h.2)

theorem OrderCondition.within_all {cs : List OrderCondition} (h : ∀ c ∈ cs, c.value.Within b) :
    Depth.Within b fun g => OrderCondition.depthAll g cs := by
  induction cs with
  | nil => exact Depth.within_zero
  | cons c rest ih =>
      rw [List.forall_mem_cons] at h
      cases c
      exact h.1.max (ih h.2)

end Lists

section Nodes
variable {b : Nat}

theorem Expression.Within.shows {e : Expression} (h : e.Within b) : e.ShowsWithin b :=
  ⟨h.mono (Nat.le_add_right b 3), fun _ => h⟩

/-- A membership test is one level deeper than its items, of which those that show one bring three
levels. -/
theorem Expression.within_items {items : List Expression} (h : ∀ e ∈ items, e.ShowsWithin b) :
    Depth.Within (b + 1) fun g => Expression.depthItems g items := by
  induction items with
  | nil => exact Depth.within_zero
  | cons item rest ih =>
      rw [List.forall_mem_cons] at h
      refine Depth.Within.max ?_ (ih h.2)
      obtain ⟨wide, narrow⟩ := h.1
      simp only [Depth.Within, Gauge.runs_member, Gauge.lists_member] at *
      cases shows : item.showsTest with
      | true =>
          simp only [if_true]
          omega
      | false =>
          have bound := narrow shows
          simp only [Bool.false_eq_true, if_false]
          omega

theorem Expression.within_member {left : Expression} {items : List Expression}
    (hl : left.Within b) (h : ∀ e ∈ items, e.ShowsWithin b) (negated : Bool) (span : Span) :
    (Expression.member negated (left :: items) span).Within (b + 1) :=
  hl.step.max (within_items h)

theorem Group.within {kind : GroupKind} {elements : List Element} {children : List Group}
    {data : Option InlineData} {span : Span} (he : ∀ e ∈ elements, e.Within b)
    (hc : ∀ g ∈ children, g.Within b) : Group.Within (b + 1) ⟨kind, elements, children, data, span⟩ :=
  ((Element.within_all he).max (Group.within_all hc)).step

theorem Query.within {q : Query} (hf : q.form.Within b) (hr : q.root.Within b)
    (hg : ∀ c ∈ q.groupBy, c.value.Within b) (hh : ∀ e ∈ q.having, e.Within b)
    (ho : ∀ c ∈ q.orderBy, c.value.Within b) : q.Within b := by
  cases q
  exact (hf.max hr).max ((GroupCondition.within_all hg).max
    ((Expression.within_all hh).max (OrderCondition.within_all ho)))

/-- Whether an expression stays within a bound as the first operand of the operators that bind like a
given one. -/
def Expression.LeadsWithin (like : Text) (b : Nat) (e : Expression) : Prop :=
  ∀ op, precedence op = precedence like → Depth.Within b fun g => g.operator op e + e.depth g

theorem Expression.LeadsWithin.within {like : Text} {e : Expression} (h : e.LeadsWithin like b) :
    e.Within b := by
  have bound := h like rfl
  simp only [Depth.Within, Gauge.lists_operator] at *
  omega

/-- An operand leads a run one level deeper at most. -/
theorem Expression.Within.leads {e : Expression} (h : e.Within b) (like : Text) :
    e.LeadsWithin like (b + 1) := by
  intro op _
  have counted := Gauge.runs_operator_le op e
  simp only [Depth.Within, Gauge.lists_operator] at *
  omega

theorem Expression.LeadsWithin.binary {like op : Text} {left right : Expression}
    (h : left.LeadsWithin like (b + 1)) (same : precedence op = precedence like)
    (hr : right.Within b) (span : Span) : (Expression.binary op [left, right] span).Within (b + 1) :=
  (h op same).max (hr.max Depth.within_zero).step

/-- A run grows by an operand without getting deeper. -/
theorem Expression.LeadsWithin.extend {like op : Text} {left right : Expression} {span : Span}
    (h : left.LeadsWithin like (b + 1)) (chained : precedence like ≠ comparisonPrecedence)
    (same : precedence op = precedence like) (hr : right.Within b) :
    (Expression.binary op [left, right] span).LeadsWithin like (b + 1) := by
  intro next also
  have goesOn : Gauge.runs.operator next (.binary op [left, right] span) = 0 := by
    simp [Gauge.runs, isRunOf, same, also, chained]
  have bound := h.binary same hr span
  simp only [Depth.Within, Gauge.lists_operator, goesOn] at *
  omega

/-- Whether an expression leads a run within a bound, or within three levels more if it shows a
membership test. -/
def Expression.LeadsShowing (like : Text) (b : Nat) (e : Expression) : Prop :=
  e.LeadsWithin like (b + 3) ∧ (e.showsTest = false → e.LeadsWithin like b)

theorem Expression.LeadsShowing.shows {like : Text} {e : Expression} (h : e.LeadsShowing like b) :
    e.ShowsWithin b :=
  ⟨h.1.within, fun plain => (h.2 plain).within⟩

theorem Expression.ShowsWithin.leads {e : Expression} (h : e.ShowsWithin b) (like : Text) :
    e.LeadsShowing like (b + 1) :=
  ⟨h.1.leads like, fun plain => (h.2 plain).leads like⟩

/-- A conjunction or disjunction shows what its operands show. -/
theorem Expression.showsTest_binary {op : Text} (connective : precedence op < comparisonPrecedence)
    (left right : Expression) (span : Span) :
    (Expression.binary op [left, right] span).showsTest = (left.showsTest || right.showsTest) := by
  simp [showsTest, anyShowsTest, connective]

theorem Expression.LeadsShowing.extend {like op : Text} {left right : Expression} {span : Span}
    (h : left.LeadsShowing like (b + 1)) (connective : precedence like < comparisonPrecedence)
    (same : precedence op = precedence like) (hr : right.ShowsWithin b) :
    (Expression.binary op [left, right] span).LeadsShowing like (b + 1) := by
  have chained := Nat.ne_of_lt connective
  refine ⟨h.1.extend chained same hr.1, fun plain => ?_⟩
  rw [showsTest_binary (same ▸ connective), Bool.or_eq_false_iff] at plain
  exact (h.2 plain.1).extend chained same (hr.2 plain.2)

/-- Whether a path stays within a bound as the left part of joins of one kind. -/
def Path.LeadsWithin (how : PathJoin) (b : Nat) (p : Path) : Prop :=
  Depth.Within b fun g => g.join how p + p.depth g

theorem Path.LeadsWithin.within {how : PathJoin} {p : Path} (h : p.LeadsWithin how b) :
    p.Within b := by
  simp only [LeadsWithin, Depth.Within, Gauge.lists_join] at *
  omega

theorem Path.Within.leads {p : Path} (h : p.Within b) (how : PathJoin) :
    p.LeadsWithin how (b + 1) := by
  have counted := Gauge.runs_join_le how p
  simp only [LeadsWithin, Depth.Within, Gauge.lists_join] at *
  omega

theorem Path.LeadsWithin.join {how : PathJoin} {left right : Path}
    (h : left.LeadsWithin how (b + 1)) (hr : right.Within b) :
    (Path.join how left right).LeadsWithin how (b + 1) := by
  have goesOn : Gauge.runs.join how (.join how left right) = 0 := by simp [Gauge.runs, isRunOf]
  have bound : (Path.join how left right).Within (b + 1) := Depth.Within.max h hr.step
  simp only [LeadsWithin, Depth.Within, Gauge.lists_join, goesOn] at *
  omega

end Nodes

end SparqlMetrics
