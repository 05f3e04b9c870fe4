import Mathlib.Algebra.Order.Floor.Div
import SparqlMetrics.Proofs.Dataset.Update

/-!
# Batches lose nothing

The rows of an analysis are cut into batches, each of which is a statement, and the statements of the
benchmarks follow them. The place of a row among all rows says in which statement it stands, and the
bodies behind each other are the same for every size of a batch. Main statement:
`Update.batched_statements`.
-/
namespace SparqlMetrics

namespace Update

section Batches

variable {α : Type} {size : Nat}

/-- A batch holds the items from its number times the size up to the next one's, or to the last. -/
theorem getElem?_batches (positive : 0 < size) (items : List α) (i : Nat) :
    (batches size items)[i]? =
      if i * size < items.length then
        some (items.extract (i * size) (min ((i + 1) * size) items.length))
      else none := by
  fun_induction batches size items generalizing i with
  | case1 items stop =>
      obtain rfl : items = [] := stop.resolve_left (Nat.ne_of_gt positive)
      simp
  | case2 items more ih =>
      have long := List.length_pos_iff.mpr (not_or.mp more).2
      cases i with
      | zero => simp [long, List.take_eq_take_min]
      | succ i =>
          have next : (i + 1) * size = i * size + size := Nat.succ_mul i size
          have behind : i * size < (items.drop size).length ↔ (i + 1) * size < items.length := by
            rw [List.length_drop, next]
            omega
          have stop : min ((i + 1) * size) (items.length - size) - i * size =
              min ((i + 1 + 1) * size) items.length - (i + 1) * size := by
            rw [Nat.succ_mul (i + 1), next]
            omega
          rw [List.getElem?_cons_succ, ih, if_congr behind rfl rfl, List.extract, List.extract,
            List.drop_drop, List.length_drop, stop, next, Nat.add_comm size]

/-- There are as many batches as the size fits into the items, the last one counted when it is
short. -/
theorem length_batches (positive : 0 < size) (items : List α) :
    (batches size items).length = items.length ⌈/⌉ size := by
  refine eq_of_forall_ge_iff fun i => ?_
  rw [← List.getElem?_eq_none_iff, getElem?_batches positive, ceilDiv_le_iff_le_mul positive,
    ite_eq_right_iff, Nat.mul_comm]
  simp

end Batches

section Statements

variable {size : Nat} {a : Analysis}

/-- What a statement inserts: the text between its beginning and its end. -/
def bodyOf (s : Text) : Text :=
  (s.drop header.length).take (s.length - (header.length + footer.length))

@[simp] theorem bodyOf_statement (body : Text) : bodyOf (statement body) = body := by
  have length : (statement body).length - (header.length + footer.length) = body.length := by
    simp only [statement, List.length_append]
    omega
  rw [bodyOf, length, statement, List.append_assoc, List.drop_left, List.take_left]

/-- The statements of an analysis in batches of a size. -/
structure Batched (size : Nat) (a : Analysis) (written : List Text) : Prop where
  length : written.length = a.rows.length ⌈/⌉ size + a.namespacesByBenchmark.entries.length
  /-- A batch is a statement of its rows. -/
  batch : ∀ i < a.rows.length ⌈/⌉ size, written[i]? = some
    (header ++ (a.rows.extract (i * size) (min ((i + 1) * size) a.rows.length)).flatMap triples ++
      footer)
  /-- Behind the batches, each benchmark has its statement at the place of its key. -/
  benchmark : ∀ name declared, a.namespacesByBenchmark.find? name = some declared →
    written[a.rows.length ⌈/⌉ size + a.namespacesByBenchmark.entries.countP (·.1 < name)]? = some
      (header ++ declared.members.flatMap (namespaceTriple name) ++ footer)
  /-- The bodies of the batches are the triples of all rows in order. -/
  rowBodies : (written.take (a.rows.length ⌈/⌉ size)).flatMap bodyOf = a.rows.flatMap triples
  /-- The size has no part in the bodies behind each other. -/
  bodies : written.flatMap bodyOf = a.rows.flatMap triples ++
    a.namespacesByBenchmark.entries.flatMap fun (name, declared) =>
      declared.members.flatMap (namespaceTriple name)

theorem flatMap_bodyOf {α : Type} (items : List α) (body : α → Text) :
    (items.map fun item => statement (body item)).flatMap bodyOf = items.flatMap body := by
  simp [List.flatMap_map]

theorem flatMap_batches (positive : 0 < size) (rows : List Row) :
    (batches size rows).flatMap (·.flatMap triples) = rows.flatMap triples := by
  conv_rhs => rw [← flatten_batches positive rows, List.flatten_eq_flatMap, List.flatMap_assoc]
  rfl

/-- The statements of an analysis are those of its batches, as many as its rows fill, and then those
of its benchmarks in the order of their keys. Together they insert the same for every size. -/
theorem batched_statements (a : Analysis) {size : Nat} (positive : 1 ≤ size) :
    ∃ written, statements size a = .ok written ∧ Batched size a written := by
  have batch : ((batches size a.rows).map fun rows => statement (rows.flatMap triples)).length =
      a.rows.length ⌈/⌉ size := by
    rw [List.length_map, length_batches positive]
  refine ⟨_, if_neg (Nat.ne_of_gt positive), ?_, ?_, ?_, ?_, ?_⟩
  · rw [List.length_append, batch, List.length_map]
  · intro i there
    have inside : i * size < a.rows.length := by
      rwa [← Nat.not_le, ceilDiv_le_iff_le_mul positive, Nat.mul_comm, Nat.not_le] at there
    rw [List.getElem?_append_left (batch ▸ there), List.getElem?_map, getElem?_batches positive,
      if_pos inside]
    rfl
  · intro name declared found
    rw [List.getElem?_append_right (batch ▸ Nat.le_add_right _ _), batch, Nat.add_sub_cancel_left,
      List.getElem?_map, TextMap.getElem?_of_find? _ found]
    rfl
  · rw [List.take_left' batch, flatMap_bodyOf, flatMap_batches positive]
  · rw [List.flatMap_append, flatMap_bodyOf, flatMap_batches positive]
    congr 1
    exact flatMap_bodyOf _ fun entry : Text × TextSet =>
      entry.2.members.flatMap (namespaceTriple entry.1)

/-- A queries file of three queries in two benchmarks, the greater one first. -/
def threeQueries : Text :=
  utf8 ("b-question1/||\\http://e/1/||\\ASK \x7b\x7d\na-question1/||\\http://e/2/||\\ASK \x7b\x7d\n" ++
    "b-question2/||\\http://e/3/||\\PREFIX p: <http://p/> ASK \x7b\x7d")

theorem batched_threeQueries :
    let a := Analysis.ofRecords {} (Record.readAll threeQueries).1
    1 ≤ 2 ∧ a.rows.length = 3 ∧ a.namespacesByBenchmark.entries.map (·.1) = [utf8 "a", utf8 "b"] ∧
      ∃ written, statements 2 a = .ok written ∧ written.length = 4 ∧ Batched 2 a written := by
  intro a
  have rows : a.rows.length = 3 := by decide +kernel
  have benchmarks : a.namespacesByBenchmark.entries.map (·.1) = [utf8 "a", utf8 "b"] := by decide +kernel
  obtain ⟨written, made, batched⟩ := batched_statements a (by decide : 1 ≤ 2)
  refine ⟨by decide, rows, benchmarks, written, made, ?_, batched⟩
  have two : a.namespacesByBenchmark.entries.length = 2 := by
    rw [← List.length_map (·.1), benchmarks]
    rfl
  rw [batched.length, rows, two]
  rfl

end Statements

end Update

end SparqlMetrics
