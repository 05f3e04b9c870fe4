import SparqlMetrics.Text.Basic

/-!
# Ordered sets and maps of texts

Texts are ordered byte by byte, a beginning before its continuations. A set is its members in
ascending order; a map is its entries in ascending order of their keys. Both carry their order, so
each member and each key is there once. Main definitions: `TextSet`, `TextMap`.
-/
namespace SparqlMetrics

namespace Text

variable {s t : Text}

theorem lt_of_not_lt (h : ¬ s < t) (other : s ≠ t) : t < s :=
  Std.lt_of_le_of_ne (List.not_lt.mp h) other.symm

theorem ne_of_lt (h : s < t) : s ≠ t := by
  rintro rfl
  exact List.lt_irrefl s h

end Text

structure TextSet where
  members : List Text
  ascends : members.Pairwise (· < ·)

namespace TextSet

def empty : TextSet := ⟨[], .nil⟩

def singleton (t : Text) : TextSet := ⟨[t], List.pairwise_singleton _ _⟩

/-- Members with one more among them, unless it is there already. -/
def insertMember (t : Text) : List Text → List Text
  | [] => [t]
  | u :: us =>
    if t < u then t :: u :: us
    else if t = u then u :: us
    else u :: insertMember t us

theorem mem_insertMember {t u : Text} {members : List Text} :
    u ∈ insertMember t members ↔ u = t ∨ u ∈ members := by
  induction members with
  | nil => simp [insertMember]
  | cons v rest ih =>
    simp only [insertMember]
    split
    · simp
    · split
      · next same => simp [same]
      · simp only [List.mem_cons, ih]
        constructor
        · rintro (h | h | h)
          · exact .inr (.inl h)
          · exact .inl h
          · exact .inr (.inr h)
        · rintro (h | h | h)
          · exact .inr (.inl h)
          · exact .inl h
          · exact .inr (.inr h)

theorem ascends_insertMember {t : Text} {members : List Text} (h : members.Pairwise (· < ·)) :
    (insertMember t members).Pairwise (· < ·) := by
  induction members with
  | nil => exact List.pairwise_singleton _ _
  | cons u rest ih =>
    obtain ⟨above, tail⟩ := List.pairwise_cons.mp h
    simp only [insertMember]
    split
    · next less =>
      refine List.pairwise_cons.mpr ⟨fun v member => ?_, h⟩
      rcases List.mem_cons.mp member with rfl | member
      · exact less
      · exact List.lt_trans less (above v member)
    · next notLess =>
      split
      · exact h
      · next other =>
        refine List.pairwise_cons.mpr ⟨fun v member => ?_, ih tail⟩
        rcases mem_insertMember.mp member with rfl | member
        · exact Text.lt_of_not_lt notLess other
        · exact above v member

def insert (t : Text) (set : TextSet) : TextSet :=
  ⟨insertMember t set.members, ascends_insertMember set.ascends⟩

/-- Adds every text of a list. -/
def insertAll (ts : List Text) (set : TextSet) : TextSet :=
  ts.foldl (fun acc t => acc.insert t) set

@[simp] theorem mem_insertAll {ts : List Text} {u : Text} {set : TextSet} :
    u ∈ (set.insertAll ts).members ↔ u ∈ ts ∨ u ∈ set.members := by
  induction ts generalizing set with
  | nil => simp [insertAll]
  | cons t rest ih =>
    have step : insertAll (t :: rest) set = insertAll rest (set.insert t) := rfl
    rw [step, ih, insert, mem_insertMember, List.mem_cons, or_left_comm, or_assoc]

theorem insertAll_append (ts us : List Text) (set : TextSet) :
    set.insertAll (ts ++ us) = (set.insertAll ts).insertAll us := List.foldl_append

theorem nodup (set : TextSet) : set.members.Nodup := set.ascends.imp Text.ne_of_lt

end TextSet

structure TextMap (α : Type) where
  entries : List (Text × α)
  ascends : entries.Pairwise fun a b => a.1 < b.1

namespace TextMap

variable {α β : Type}

def empty : TextMap α := ⟨[], .nil⟩

def find? (key : Text) (map : TextMap α) : Option α := map.entries.lookup key

/-- Entries with the value at a key changed, which starts from a given value when the key is new. -/
def alterEntry (key : Text) (fresh : α) (change : α → α) : List (Text × α) → List (Text × α)
  | [] => [(key, change fresh)]
  | (k, v) :: rest =>
    if key < k then (key, change fresh) :: (k, v) :: rest
    else if key = k then (k, change v) :: rest
    else (k, v) :: alterEntry key fresh change rest

section Alter

variable {key : Text} {fresh : α} {change : α → α} {entries : List (Text × α)}

theorem key_of_mem_alterEntry {entry : Text × α} (h : entry ∈ alterEntry key fresh change entries) :
    entry.1 = key ∨ ∃ old ∈ entries, old.1 = entry.1 := by
  induction entries with
  | nil =>
    rw [alterEntry, List.mem_singleton] at h
    exact .inl (congrArg Prod.fst h)
  | cons head rest ih =>
    simp only [alterEntry] at h
    split at h
    · rcases List.mem_cons.mp h with rfl | member
      · exact .inl rfl
      · exact .inr ⟨entry, member, rfl⟩
    · split at h
      · next same =>
        rcases List.mem_cons.mp h with rfl | member
        · exact .inl same.symm
        · exact .inr ⟨entry, List.mem_cons_of_mem _ member, rfl⟩
      · rcases List.mem_cons.mp h with rfl | member
        · exact .inr ⟨_, List.mem_cons_self, rfl⟩
        · obtain same | ⟨old, there, same⟩ := ih member
          · exact .inl same
          · exact .inr ⟨old, List.mem_cons_of_mem _ there, same⟩

theorem ascends_alterEntry (h : entries.Pairwise fun a b => a.1 < b.1) :
    (alterEntry key fresh change entries).Pairwise fun a b => a.1 < b.1 := by
  induction entries with
  | nil => exact List.pairwise_singleton _ _
  | cons head rest ih =>
    obtain ⟨above, tail⟩ := List.pairwise_cons.mp h
    simp only [alterEntry]
    split
    · next less =>
      refine List.pairwise_cons.mpr ⟨fun entry member => ?_, h⟩
      rcases List.mem_cons.mp member with rfl | member
      · exact less
      · exact List.lt_trans less (above entry member)
    · next notLess =>
      split
      · exact List.pairwise_cons.mpr ⟨above, tail⟩
      · next other =>
        refine List.pairwise_cons.mpr ⟨fun entry member => ?_, ih tail⟩
        obtain same | ⟨old, there, same⟩ := key_of_mem_alterEntry member
        · rw [same]
          exact Text.lt_of_not_lt notLess other
        · rw [← same]
          exact above old there

end Alter

/-- Changes the value at a key, which starts from a given value when the key is new. -/
def alter (key : Text) (fresh : α) (change : α → α) (map : TextMap α) : TextMap α :=
  ⟨alterEntry key fresh change map.entries, ascends_alterEntry map.ascends⟩

/-- A map with another value at each key. -/
def mapValues (f : α → β) (map : TextMap α) : TextMap β :=
  ⟨map.entries.map fun entry => (entry.1, f entry.2), List.pairwise_map.mpr map.ascends⟩

theorem nodup_keys (map : TextMap α) : (map.entries.map (·.1)).Nodup :=
  List.pairwise_map.mpr (map.ascends.imp Text.ne_of_lt)

end TextMap

end SparqlMetrics
