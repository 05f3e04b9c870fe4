import Mathlib.Order.Nat
import SparqlMetrics.Proofs.Grammar.Shallow
import SparqlMetrics.Proofs.Rereading

/-!
# The depth of queries

The nesting that is allowed bounds the depth of the trees that are read, if a run of operators counts
as one level and no membership test stands in the list of another one. It does not bound their
height: a path of many steps is one run, built to the left, and as high as it is long. Main
statements: `QueryUnit.depth_runs_le_of_parse`, `QueryUnit.not_bounded_height`.
-/
namespace SparqlMetrics

theorem Path.height_rewrite (w : Rewriting) (p : Path) :
    (p.rewrite w).depth .height = p.depth .height := by
  induction p with
  | step predicate => rfl
  | inverse inner ih => rw [rewrite, depth, depth, ih]
  | repeated times inner ih => rw [rewrite, depth, depth, ih]
  | negated inner ih => rw [rewrite, depth, depth, ih]
  | join how left right ihLeft ihRight => rw [rewrite, depth, depth, ihLeft, ihRight]; rfl

namespace QueryUnit

theorem within_of_parse {s : Text} {unit : QueryUnit} (h : parse s = .ok unit) :
    unit.query.Within (10 * (maxNesting + 1)) := by
  unfold parse at h
  split at h
  · next read =>
    rw [← Except.ok.inj h]
    exact (Grammar.shallow_queryUnit _ _ _ (Cursor.spelled_ofStream s) read).1
  · cases h

/-- Every tree of a query that is read stays within ten levels for each nesting that is allowed and
for the query itself, if a run of operators of one precedence or of one join of paths counts once and
no membership test stands in the list of another one. -/
theorem depth_runs_le_of_parse {s : Text} {unit : QueryUnit} (h : parse s = .ok unit)
    (apart : unit.query.depth .lists = 0) : unit.query.depth .runs ≤ 10 * (maxNesting + 1) := by
  have bound := within_of_parse h
  rwa [Query.Within, Depth.Within, apart] at bound

/-- A membership test with another one inside a call. -/
def listsApart : Text := utf8 "ASK\x7bFILTER(?a IN(1+2+3,STR(?b NOT IN(4*5*6))))\x7d"

theorem depth_runs_le_listsApart : ∃ unit, parse listsApart = .ok unit ∧
    unit.query.depth .lists = 0 ∧ unit.query.depth .runs ≤ 10 * (maxNesting + 1) := by
  have measured : ((parse listsApart).map fun unit => unit.query.depth .lists).toOption =
      some 0 := by
    decide +kernel
  cases read : parse listsApart with
  | ok unit =>
      rw [read] at measured
      have apart : unit.query.depth .lists = 0 := Option.some.inj measured
      exact ⟨unit, rfl, apart, depth_runs_le_of_parse read apart⟩
  | error e =>
      rw [read] at measured
      cases measured

/-- A path of one step and then so many more. -/
def longPath : Nat → Path
  | 0 => .step ⟨.iri (utf8 "urn:p"), {}⟩
  | n + 1 => .join .sequence (longPath n) (.step ⟨.iri (utf8 "urn:p"), {}⟩)

theorem height_longPath (n : Nat) : (longPath n).depth .height = n + 1 := by
  induction n with
  | zero => rfl
  | succ n ih =>
      rw [longPath, Path.depth, ih]
      show max (1 + (n + 1)) (1 + 1) = n + 1 + 1
      omega

theorem nesting_longPath (n : Nat) : (longPath n).nesting = 0 := by
  induction n with
  | zero => rfl
  | succ n ih =>
      have inner : (longPath n).breaksLeft .sequence = false := by cases n <;> rfl
      rw [longPath, Path.nesting, inner, ih]
      rfl

theorem isFormed_longPath (n : Nat) : (longPath n).IsFormed := by
  induction n with
  | zero => rfl
  | succ n ih => exact ⟨ih, rfl⟩

theorem iris_longPath (n : Nat) : ∀ iri ∈ (longPath n).iris, iri = utf8 "urn:p" := by
  induction n with
  | zero => simp [longPath, Path.iris]
  | succ n ih => exact List.forall_mem_append.mpr ⟨ih, by simp [Path.iris]⟩

/-- A test for a path of so many steps behind the first one. -/
def longUnit (n : Nat) : QueryUnit where
  namespaces := {}
  query :=
    { form := .ask
      resultVariables := [utf8 "s", utf8 "o"]
      dataset := []
      root := ⟨.group, [.path ⟨.var (utf8 "s"), {}⟩ (longPath n) ⟨.var (utf8 "o"), {}⟩ {}], [], none,
        {}⟩
      groupBy := []
      having := []
      orderBy := []
      limit := none
      offset := none
      values := none
      span := {} }

theorem isReadable_longUnit (n : Nat) : (longUnit n).IsReadable := by
  have noTemplate : Form.ask.Keeps := by simp [Form.Keeps]
  have pattern : (longUnit n).query.root.Fits maxNesting := by
    refine (Group.fits_braces rfl).mpr ⟨List.forall_mem_singleton.mpr ?_, List.forall_mem_nil _⟩
    exact Element.fits_path.mpr ((nesting_longPath n).trans_le (Nat.zero_le _))
  refine ⟨Query.fits_iff.mpr ⟨?_, pattern, ?_, ?_, ?_⟩, noTemplate⟩ <;> simp [longUnit]

theorem printable_longUnit (n : Nat) : (longUnit (n + 1)).query.Everywhere printableChecks := by
  have iri : Iri.hasScheme (utf8 "urn:p") = true ∧ IsCleanIri (utf8 "urn:p") := by decide
  have subject : IsVariableName (utf8 "s") := ⟨by decide, by decide +kernel⟩
  have object : IsVariableName (utf8 "o") := ⟨by decide, by decide +kernel⟩
  have element : Element.Everywhere printableChecks
      (.path ⟨.var (utf8 "s"), {}⟩ (longPath (n + 1)) ⟨.var (utf8 "o"), {}⟩ {}) :=
    ⟨⟨⟨⟨rfl, isFormed_longPath _⟩, fun i hi => iris_longPath _ i hi ▸ iri.1⟩,
      fun i hi => iris_longPath _ i hi ▸ iri.2⟩, ⟨subject, trivial⟩, ⟨object, trivial⟩⟩
  have root : (longUnit (n + 1)).query.root.Everywhere printableChecks :=
    ⟨⟨nofun, trivial, .inl (List.forall_mem_singleton.mpr rfl), nofun⟩, trivial,
      Element.everywhereAll_iff.mpr (List.forall_mem_singleton.mpr element), trivial, trivial⟩
  have query : printableChecks.query (longUnit (n + 1)).query :=
    ⟨⟨nofun, trivial, rfl, List.forall_mem_nil _, List.forall_mem_nil _, nofun, nofun⟩,
      List.forall_mem_nil _⟩
  exact Query.everywhere_iff.mpr ⟨query, trivial, root, List.forall_mem_nil _, List.forall_mem_nil _,
    List.forall_mem_nil _, trivial⟩

theorem kept_longUnit (n : Nat) : (longUnit n).query.Everywhere keptChecks := by
  have element : Element.Everywhere keptChecks
      (.path ⟨.var (utf8 "s"), {}⟩ (longPath n) ⟨.var (utf8 "o"), {}⟩ {}) :=
    ⟨.inr rfl, trivial, trivial⟩
  have root : (longUnit n).query.root.Everywhere keptChecks :=
    ⟨trivial, trivial, Element.everywhereAll_iff.mpr (List.forall_mem_singleton.mpr element), trivial,
      trivial⟩
  exact Query.everywhere_iff.mpr ⟨trivial, trivial, root, List.forall_mem_nil _,
    List.forall_mem_nil _, List.forall_mem_nil _, trivial⟩

/-- A query that is a test for a long path but for the spans is as deep as that path. -/
theorem le_height_of_rewrite {n : Nat} {q : Query}
    (same : q.rewrite .withoutSpans = (longUnit n).query.rewrite .withoutSpans) :
    n ≤ q.depth .height := by
  have groups := congrArg Query.root same
  rw [Query.root_withoutSpans, Query.root_withoutSpans] at groups
  obtain ⟨_, _, _, ⟨_, elements, _, _, _⟩, _, _, _, _, _, _, _⟩ := q
  have inside : Element.rewriteAll .withoutSpans elements = Element.rewriteAll .withoutSpans
      [.path ⟨.var (utf8 "s"), {}⟩ (longPath n) ⟨.var (utf8 "o"), {}⟩ {}] :=
    congrArg Group.elements groups
  cases elements with
  | nil => cases inside
  | cons e rest =>
      have first := (List.cons.inj inside).1
      have deep : n + 1 ≤ e.depth .height := by
        cases e with
        | path subject p object span =>
            have path : p.rewrite .withoutSpans = (longPath n).rewrite .withoutSpans :=
              (Element.path.inj first).2.1
            rw [Element.depth, ← p.height_rewrite .withoutSpans, path, Path.height_rewrite,
              height_longPath]
        | subquery query span => cases query <;> cases first
        | _ => cases first
      simp only [Query.depth, Group.depth, Element.depthAll]
      omega

/-- No number bounds the height of every query that is read. -/
theorem not_bounded_height :
    ¬ ∃ bound, ∀ s unit, parse s = .ok unit → unit.query.depth .height ≤ bound := by
  rintro ⟨bound, bounded⟩
  have plain : (longUnit (bound + 1)).namespaces.Plain :=
    { Namespaces.legal_empty with
      noColon := List.forall_mem_nil _ }
  obtain ⟨c, place, count, same⟩ := exists_cursor plain
  have read := (Grammar.fares_queryBehind plain (printable_longUnit bound) (by rfl)).result
    (isReadable_longUnit _)
  rw [List.append_nil] at read
  obtain ⟨again, c', found, _, query⟩ :=
    Grammar.queryBehind_of_at place (Cursor.at_before _) count read
  rw [Query.rewrite_of_kept _ (kept_longUnit _), Query.withoutSpans_idem] at query
  have parsed : parse (longUnit (bound + 1)).write = .ok again := by
    rw [same, found]
    rfl
  have high : bound + 1 ≤ again.query.depth .height := le_height_of_rewrite query
  have low : again.query.depth .height ≤ bound := bounded _ again parsed
  omega

end QueryUnit

end SparqlMetrics
