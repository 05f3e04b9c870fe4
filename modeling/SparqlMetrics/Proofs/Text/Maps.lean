import Mathlib.Algebra.GroupWithZero.Nat
import SparqlMetrics.Text.Order

/-!
# Laws of ordered maps

Looking a key up after a change finds the changed value there and the old values elsewhere. An entry
is what is found under its key, and it stands behind the entries with smaller keys.
-/
namespace SparqlMetrics

namespace TextMap

variable {α : Type} {key : Text} {fresh : α} {change : α → α} {map : TextMap α}
variable {entries : List (Text × α)}

theorem lookup_cons (head : Text × α) (rest : List (Text × α)) (sought : Text) :
    List.lookup sought (head :: rest) =
      if sought = head.1 then some head.2 else List.lookup sought rest := by
  obtain ⟨k, v⟩ := head
  by_cases same : sought = k
  · simp [same]
  · simp [List.lookup_cons, same, beq_false_of_ne same]

theorem lookup_of_above (h : ∀ entry ∈ entries, key < entry.1) : entries.lookup key = none :=
  List.lookup_eq_none_iff.mpr fun entry member => bne_iff_ne.mpr (Text.ne_of_lt (h entry member))

theorem lookup_alterEntry (h : entries.Pairwise fun a b => a.1 < b.1) (sought : Text) :
    (alterEntry key fresh change entries).lookup sought =
      if sought = key then some (change ((entries.lookup key).getD fresh))
      else entries.lookup sought := by
  induction entries with
  | nil => rw [alterEntry, lookup_cons, List.lookup_nil, List.lookup_nil, Option.getD_none]
  | cons head rest ih =>
    obtain ⟨k, v⟩ := head
    obtain ⟨above, tail⟩ := List.pairwise_cons.mp h
    simp only [alterEntry]
    split
    · next less =>
      have absent : List.lookup key ((k, v) :: rest) = none := by
        refine lookup_of_above fun entry member => ?_
        rcases List.mem_cons.mp member with rfl | member
        · exact less
        · exact List.lt_trans less (above entry member)
      rw [absent, lookup_cons, Option.getD_none]
    · split
      · next same =>
        subst same
        rw [lookup_cons, lookup_cons, lookup_cons, if_pos rfl, Option.getD_some]
        by_cases here : sought = key <;> simp [here]
      · next other =>
        rw [lookup_cons, lookup_cons, lookup_cons, ih tail, if_neg other]
        by_cases here : sought = k
        · rw [if_pos here, if_pos here, if_neg fun same => other (same.symm.trans here)]
        · rw [if_neg here, if_neg here]

/-- What is found after a change. -/
theorem find?_alter (map : TextMap α) (sought : Text) :
    (map.alter key fresh change).find? sought =
      if sought = key then some (change ((map.find? key).getD fresh)) else map.find? sought :=
  lookup_alterEntry map.ascends sought

theorem mem_iff_lookup (h : entries.Pairwise fun a b => a.1 < b.1) {value : α} :
    (key, value) ∈ entries ↔ entries.lookup key = some value := by
  induction entries with
  | nil => simp
  | cons head rest ih =>
    obtain ⟨k, v⟩ := head
    obtain ⟨above, tail⟩ := List.pairwise_cons.mp h
    rw [List.mem_cons, lookup_cons, Prod.mk.injEq]
    by_cases here : key = k
    · subst here
      have absent : (key, value) ∉ rest := fun member => Text.ne_of_lt (above _ member) rfl
      simp [absent, eq_comm]
    · simp [here, ih tail]

/-- An entry is what is found under its key. -/
theorem mem_iff_find? (map : TextMap α) {value : α} :
    (key, value) ∈ map.entries ↔ map.find? key = some value := mem_iff_lookup map.ascends

theorem getElem?_of_lookup (h : entries.Pairwise fun a b => a.1 < b.1) {value : α}
    (found : entries.lookup key = some value) :
    entries[entries.countP (·.1 < key)]? = some (key, value) := by
  induction entries with
  | nil => cases found
  | cons head rest ih =>
      obtain ⟨above, tail⟩ := List.pairwise_cons.mp h
      rw [lookup_cons] at found
      split at found
      · next here =>
        subst here
        obtain rfl := Option.some.inj found
        have first : (head :: rest).countP (·.1 < head.1) = 0 := by
          refine List.countP_eq_zero.mpr fun entry member => ?_
          rw [decide_eq_true_eq]
          rcases List.mem_cons.mp member with rfl | member
          · exact List.lt_irrefl _
          · exact List.lt_asymm (above entry member)
        rw [first, List.getElem?_cons_zero]
      · have below := above _ ((mem_iff_lookup tail).mpr found)
        rw [List.countP_cons_of_pos (by simpa using below), List.getElem?_cons_succ]
        exact ih tail found

/-- An entry stands behind those with smaller keys. -/
theorem getElem?_of_find? (map : TextMap α) {value : α} (found : map.find? key = some value) :
    map.entries[map.entries.countP (·.1 < key)]? = some (key, value) :=
  getElem?_of_lookup map.ascends found

theorem sum_alterEntry (counts : List (Text × Nat)) :
    ((alterEntry key 0 (· + 1) counts).map (·.2)).sum = (counts.map (·.2)).sum + 1 := by
  induction counts with
  | nil => rfl
  | cons head rest ih =>
    simp only [alterEntry]
    split
    · simp [Nat.add_comm]
    · split
      · simp [Nat.add_right_comm]
      · simp only [List.map_cons, List.sum_cons, ih]
        omega

/-- Counting one more under a key adds one to the sum of the counts. -/
theorem sum_count (counts : TextMap Nat) :
    ((counts.alter key 0 (· + 1)).entries.map (·.2)).sum = (counts.entries.map (·.2)).sum + 1 :=
  sum_alterEntry counts.entries

end TextMap

end SparqlMetrics
