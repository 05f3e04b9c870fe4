import SparqlMetrics.Proofs.Iri.Components

/-!
# Resolving by places

A reference can be resolved by the places of the marks in the base: of its colon, of the end of its
authority, of its query and fragment and of its last slash. Here every access asks first whether the
text has the place, and nothing is returned when it does not. Against an absolute base all places are
in the text. Main statement: `Iri.resolveAt?_eq`.
-/
namespace SparqlMetrics.Iri

/-- The text in front of a place that it has. -/
def upTo? (s : Text) (place : Nat) : Option Text :=
  if place ≤ s.length then some (s.take place) else none

/-- The text from a place on that it has. -/
def behind? (s : Text) (place : Nat) : Option Text :=
  if place ≤ s.length then some (s.drop place) else none

/-- The place of the last of a byte. -/
def lastPlace? (b : Byte) : Text → Option Nat
  | [] => none
  | c :: rest =>
    match lastPlace? b rest with
    | some place => some (place + 1)
    | none => if c = b then some 0 else none

/-- An IRI up to the place of its fragment. -/
def withoutFragmentAt? (iri : Text) : Option Text := upTo? iri (iri.findIdx (· == Byte.hash))

/-- An IRI up to the places of its fragment and its query. -/
def withoutQueryAt? (iri : Text) : Option Text := do
  let front ← withoutFragmentAt? iri
  upTo? front (front.findIdx (· == Byte.question))

/-- The place where the authority ends, from that of the colon. Without an authority it is right
behind the colon. -/
def authorityEnd? (iri : Text) (colon : Nat) : Option Nat := do
  let specific ← behind? iri (colon + 1)
  if [Byte.slash, Byte.slash].isPrefixOf specific then do
    let authority ← behind? iri (colon + 3)
    some (colon + 3 + authority.findIdx endsAuthority)
  else some (colon + 1)

/-- A reference behind the last slash of a text without a query, or behind a slash at the end of the
authority when the last slash stands in front of that or there is none. -/
def mergeAt? (front : Text) (authorityEnd : Nat) (reference : Text) : Option Text :=
  match lastPlace? Byte.slash front with
  | none => do some ((← upTo? front authorityEnd) ++ Byte.slash :: reference)
  | some place =>
    if place < authorityEnd then do some ((← upTo? front authorityEnd) ++ Byte.slash :: reference)
    else do some ((← upTo? front (place + 1)) ++ reference)

/-- Resolves a relative reference by the places of the marks in the base. -/
def resolveAt? (base reference : Text) : Option Text :=
  match reference with
  | [] => withoutFragmentAt? base
  | b :: rest =>
    if b == Byte.hash then do some ((← withoutFragmentAt? base) ++ reference)
    else do
      let colon ← base.findIdx? (· == Byte.colon)
      let scheme ← upTo? base colon
      if b == Byte.slash && rest.head? == some Byte.slash then
        some (scheme ++ Byte.colon :: reference)
      else do
        let authorityEnd ← authorityEnd? base colon
        if b == Byte.slash then do some ((← upTo? base authorityEnd) ++ reference)
        else do
          let front ← withoutQueryAt? base
          if b == Byte.question then some (front ++ reference)
          else mergeAt? front authorityEnd reference

section Places
variable {s t : Text} {b : Byte} {p : Byte → Bool} {place : Nat}

@[simp] theorem upTo?_append (s t : Text) : upTo? (s ++ t) s.length = some s := by simp [upTo?]

@[simp] theorem behind?_append (s t : Text) : behind? (s ++ t) s.length = some t := by simp [behind?]

/-- Up to the first byte of a class stand the bytes that are not of it. -/
theorem upTo?_findIdx (p : Byte → Bool) (s : Text) :
    upTo? s (s.findIdx p) = some (s.takeWhile (!p ·)) := by
  rw [upTo?, if_pos List.findIdx_le_length, List.takeWhile_eq_take_findIdx_not]
  simp

theorem findIdx_run {run rest : Text} (all : ∀ b ∈ run, p b = false)
    (stop : StopsAt (!p ·) rest) : (run ++ rest).findIdx p = run.length := by
  induction run with
  | nil =>
      cases rest with
      | nil => rfl
      | cons b rest =>
          have here : p b = true := by simpa using stop b rfl
          simp [List.findIdx_cons, here]
  | cons b run ih =>
      have here : p b = false := all b List.mem_cons_self
      simp [List.findIdx_cons, here, ih fun c member => all c (List.mem_cons_of_mem _ member)]

theorem lastPlace?_append (b : Byte) (s t : Text) :
    lastPlace? b (s ++ t) = ((lastPlace? b t).map (s.length + ·)).or (lastPlace? b s) := by
  induction s with
  | nil => simp [lastPlace?]
  | cons c rest ih =>
      rw [List.cons_append, lastPlace?, ih, lastPlace?]
      cases lastPlace? b t with
      | none => simp
      | some place => simp [Nat.add_right_comm]

theorem lastPlace?_eq_none_iff : lastPlace? b s = none ↔ b ∉ s := by
  induction s with
  | nil => simp [lastPlace?]
  | cons c rest ih =>
      rw [lastPlace?]
      cases found : lastPlace? b rest with
      | none =>
          have other : b ∉ rest := ih.mp found
          by_cases same : c = b
          · simp [same]
          · simp [same, other, Ne.symm same]
      | some place =>
          have member : b ∈ rest := by simpa [found] using ih
          simp [member]

/-- The last of a byte has none of its kind behind it. -/
theorem exists_of_lastPlace? (h : lastPlace? b s = some place) :
    ∃ front rest, s = front ++ b :: rest ∧ b ∉ rest ∧ front.length = place := by
  induction s generalizing place with
  | nil => cases h
  | cons c more ih =>
      rw [lastPlace?] at h
      cases found : lastPlace? b more with
      | none =>
          simp only [found] at h
          split at h
          · next same =>
            exact ⟨[], more, by rw [same]; rfl, lastPlace?_eq_none_iff.mp found, Option.some.inj h⟩
          · cases h
      | some inner =>
          simp only [found, Option.some.injEq] at h
          obtain ⟨front, rest, rfl, free, length⟩ := ih found
          exact ⟨c :: front, rest, rfl, free, by rw [List.length_cons, length, h]⟩

/-- A path up to the place of its last slash and one byte more is its directory. -/
theorem directory_of_lastPlace? (h : lastPlace? Byte.slash s = some place) :
    Byte.slash ∈ s ∧ place < s.length ∧ directory s = s.take (place + 1) := by
  obtain ⟨front, rest, rfl, free, rfl⟩ := exists_of_lastPlace? h
  refine ⟨by simp, by simp, ?_⟩
  have all : ∀ b ∈ rest.reverse, (b != Byte.slash) = true := fun b member => by
    simpa using ne_of_mem_of_not_mem (List.mem_reverse.mp member) free
  have cut : (rest.reverse ++ Byte.slash :: front.reverse).dropWhile (· != Byte.slash) =
      Byte.slash :: front.reverse := dropWhile_run all (stopsAt_cons (by decide))
  rw [directory, List.reverse_append, List.reverse_cons, List.append_assoc, List.singleton_append,
    cut]
  simp [List.take_length_add_append]

end Places

@[simp] theorem withoutFragmentAt?_eq (iri : Text) :
    withoutFragmentAt? iri = some (withoutFragment iri) :=
  upTo?_findIdx _ _

@[simp] theorem withoutQueryAt?_eq (iri : Text) : withoutQueryAt? iri = some (withoutQuery iri) := by
  rw [withoutQueryAt?, withoutFragmentAt?_eq]
  exact upTo?_findIdx _ _

/-- Merging by places is merging, where the front is the root and a path behind it. -/
theorem mergeAt?_eq (front path reference : Text) :
    mergeAt? (front ++ path) front.length reference =
      some (if directory path = [] then front ++ Byte.slash :: reference
        else front ++ directory path ++ reference) := by
  rw [mergeAt?, lastPlace?_append]
  cases found : lastPlace? Byte.slash path with
  | none =>
      have nothing : directory path = [] :=
        directory_eq_nil_iff.mpr (lastPlace?_eq_none_iff.mp found)
      -- the last slash, if there is one, stands in the front
      cases last : lastPlace? Byte.slash front with
      | none => simp [nothing]
      | some place => simp [nothing, (directory_of_lastPlace? last).2.1]
  | some place =>
      obtain ⟨member, inside, same⟩ := directory_of_lastPlace? found
      have kept : directory path ≠ [] := fun nothing => directory_eq_nil_iff.mp nothing member
      have enough : front.length + place + 1 ≤ (front ++ path).length := by
        rw [List.length_append]
        omega
      have cut : (front ++ path).take (front.length + place + 1) = front ++ directory path := by
        rw [same, Nat.add_assoc, List.take_length_add_append]
      simp only [Option.map_some, Option.some_or, Nat.not_lt.mpr (Nat.le_add_right _ _), if_false,
        kept, upTo?, enough, if_true, cut]
      rfl

namespace Components

variable {c : Components} {scheme : Text}

theorem text_named (named : c.scheme = some scheme) :
    c.text = scheme ++ Byte.colon :: c.hierarchy := by
  simp [text, named]

section Absolute
variable (h : c.IsAbsolute) (named : c.scheme = some scheme)
include h named

theorem IsAbsolute.colonPlace : c.text.findIdx? (· == Byte.colon) = some scheme.length := by
  obtain ⟨other, same, letters⟩ := h.schemed
  obtain rfl : scheme = other := Option.some.inj (named.symm.trans same)
  have free : ∀ b ∈ scheme, (b == Byte.colon) = false := fun b member => by
    simpa using ne_of_isSchemeByte (letters b member) (show isSchemeByte Byte.colon = false by decide)
  rw [text_named named, List.findIdx?_eq_some_iff_findIdx_eq]
  exact ⟨by simp, findIdx_run free (stopsAt_cons (by decide))⟩

theorem IsAbsolute.upTo?_colonPlace : upTo? c.text scheme.length = some (Iri.scheme c.text) := by
  have same : Iri.scheme c.text = scheme := by
    have whole := h.scheme_text
    rw [named] at whole
    exact List.append_cancel_right whole
  rw [same, text_named named, upTo?_append]

theorem IsAbsolute.authorityEnd : authorityEnd? c.text scheme.length = some c.front.length := by
  have split : c.text = (scheme ++ [Byte.colon]) ++ c.hierarchy := by simp [text, named]
  have specific : behind? c.text (scheme.length + 1) = some c.hierarchy := by
    have length : scheme.length + 1 = (scheme ++ [Byte.colon]).length := by simp
    rw [length, split, behind?_append]
  rw [authorityEnd?, specific]
  cases found : c.authority with
  | none =>
      simp [h.unrooted_hierarchy found, front, named, found, marked]
  | some a =>
      have opens : c.hierarchy = [Byte.slash, Byte.slash] ++ (a ++ (c.path ++ c.marks)) := by
        rw [hierarchy, found]
        rfl
      have behind : behind? c.text (scheme.length + 3) = some (a ++ (c.path ++ c.marks)) := by
        have whole : c.text = (scheme ++ [Byte.colon, Byte.slash, Byte.slash]) ++
            (a ++ (c.path ++ c.marks)) := by rw [split, opens]; simp
        have length : scheme.length + 3 =
            (scheme ++ [Byte.colon, Byte.slash, Byte.slash]).length := by simp
        rw [length, whole, behind?_append]
      have ends : (a ++ (c.path ++ c.marks)).findIdx endsAuthority = a.length :=
        findIdx_run (h.authority a found) (h.stops_behindAuthority (by rw [found]; rfl))
      have slashes : [Byte.slash, Byte.slash].isPrefixOf c.hierarchy = true :=
        List.isPrefixOf_iff_prefix.mpr ⟨_, opens.symm⟩
      simp only [Option.bind_eq_bind, Option.bind_some, slashes, if_true, behind, ends, front, named,
        found, marked, Option.map_some, Option.getD_some, List.length_append, List.length_cons,
        List.length_nil, Option.some.injEq]
      omega

end Absolute

end Components

/-- Against an absolute base all places are in the text, and resolving by them is resolving. -/
theorem resolveAt?_eq {base : Text} (absolute : hasScheme base = true) (reference : Text) :
    resolveAt? base reference = some (resolve base reference) := by
  have h := Components.isAbsolute_ofText absolute
  have same := Components.text_ofText base
  revert h same
  generalize Components.ofText base = c
  rintro h rfl
  obtain ⟨scheme, named, _⟩ := h.schemed
  cases reference with
  | nil => exact withoutFragmentAt?_eq _
  | cons b rest =>
      have front : c.text = c.front ++ (c.path ++ c.marks) := c.text_eq
      have upTo : upTo? c.text c.front.length = some (root c.text) := by
        rw [h.root_text, front, upTo?_append]
      have merged : mergeAt? (withoutQuery c.text) c.front.length (b :: rest) =
          some (merge c.text (b :: rest)) := by
        rw [merge, h.folder_text, h.root_text, h.withoutQuery_text, mergeAt?_eq]
        simp
      simp only [resolveAt?, resolve, withoutFragmentAt?_eq, withoutQueryAt?_eq, h.colonPlace named,
        h.upTo?_colonPlace named, h.authorityEnd named, upTo, merged, Option.bind_eq_bind,
        Option.bind_some]
      -- both ask for the kinds of reference in the same order
      cases hash : b == Byte.hash with
      | true => simp
      | false =>
      cases slash : b == Byte.slash with
      | true => by_cases second : rest.head? = some Byte.slash <;> simp [second]
      | false => cases question : b == Byte.question <;> simp

end SparqlMetrics.Iri
