import SparqlMetrics.Proofs.Absolute
import SparqlMetrics.Proofs.Token.Opens

/-!
# Components of references

A reference has a scheme, an authority, a path, a query and a fragment, of which only the path is
always there. The transform of a relative reference takes from the base what the reference leaves
out; it is stated on components, with dot segments kept as they are written. Resolving byte by byte
agrees with it except in one case: where the base has neither an authority nor a slash in its path,
a path that is merged with the base's is put behind a slash that the transform does not have.
Main statement: `Iri.resolve_eq_target_iff`.
-/
namespace SparqlMetrics.Iri

def endsPath (b : Byte) : Bool := b == Byte.question || b == Byte.hash

/-- The component that a mark opens, up to the first byte that ends it, and what stands behind it. -/
def component? (mark : Text) (ends : Byte → Bool) (s : Text) : Option Text × Text :=
  if mark.isPrefixOf s then
    ((s.drop mark.length).takeWhile (!ends ·), (s.drop mark.length).dropWhile (!ends ·))
  else (none, s)

/-- A component behind its mark. -/
def marked (mark : Text) (component : Option Text) : Text := (component.map (mark ++ ·)).getD []

/-- The components of a reference. One that is absent differs from one that is empty. -/
structure Components where
  scheme : Option Text
  authority : Option Text
  path : Text
  query : Option Text
  fragment : Option Text
  deriving DecidableEq, Repr

namespace Components

def behindAuthority (s : Text) : Text := (component? [Byte.slash, Byte.slash] endsAuthority s).2

def behindPath (s : Text) : Text := (behindAuthority s).dropWhile (!endsPath ·)

def behindQuery (s : Text) : Text := (component? [Byte.question] (· == Byte.hash) (behindPath s)).2

/-- The components of what stands behind a scheme and its colon. -/
def ofHierarchy (scheme : Option Text) (s : Text) : Components where
  scheme := scheme
  authority := (component? [Byte.slash, Byte.slash] endsAuthority s).1
  path := (behindAuthority s).takeWhile (!endsPath ·)
  query := (component? [Byte.question] (· == Byte.hash) (behindPath s)).1
  fragment := (component? [Byte.hash] (fun _ => false) (behindQuery s)).1

def ofText (s : Text) : Components :=
  if hasScheme s then
    ofHierarchy (some (s.takeWhile (· != Byte.colon))) (s.dropWhile (· != Byte.colon)).tail
  else ofHierarchy none s

def hierarchy (c : Components) : Text :=
  marked [Byte.slash, Byte.slash] c.authority ++ (c.path ++
    (marked [Byte.question] c.query ++ marked [Byte.hash] c.fragment))

/-- The components put together again. -/
def text (c : Components) : Text :=
  (c.scheme.map (· ++ [Byte.colon])).getD [] ++ c.hierarchy

/-- A path put in the place of the last segment of the base's path. Behind an authority without a
path it stands behind a slash. -/
def merge (base : Components) (path : Text) : Text :=
  if base.authority.isSome && base.path.isEmpty then Byte.slash :: path
  else directory base.path ++ path

/-- The transform of a reference against a base. -/
def target (base reference : Components) : Components :=
  if reference.scheme.isSome then reference
  else if reference.authority.isSome then { reference with scheme := base.scheme }
  else if reference.path.isEmpty then
    { base with query := reference.query.or base.query, fragment := reference.fragment }
  else if reference.path.head? = some Byte.slash then
    { reference with scheme := base.scheme, authority := base.authority }
  else
    { reference with
      scheme := base.scheme
      authority := base.authority
      path := merge base reference.path }

/-- Whether a reference opens with a segment of a path that is merged with a base which has neither an
authority nor a folder. -/
def Strays (base reference : Components) : Prop :=
  base.authority = none ∧ Byte.slash ∉ base.path ∧ reference.authority = none ∧
    reference.path ≠ [] ∧ reference.path.head? ≠ some Byte.slash

instance (base reference : Components) : Decidable (Strays base reference) :=
  inferInstanceAs (Decidable (_ ∧ _))

/-- Where the components of a text end. -/
structure IsSplit (c : Components) : Prop where
  authority : ∀ a, c.authority = some a → ∀ b ∈ a, endsAuthority b = false
  path : ∀ b ∈ c.path, endsPath b = false
  rooted : c.authority.isSome = true → ∀ b, c.path.head? = some b → b = Byte.slash
  unrooted : c.authority = none → ¬ [Byte.slash, Byte.slash] <+: c.path
  query : ∀ q, c.query = some q → Byte.hash ∉ q

section Splitting
variable {mark s : Text} {ends : Byte → Bool} {scheme : Option Text}

theorem marked_component? (mark : Text) (ends : Byte → Bool) (s : Text) :
    marked mark (component? mark ends s).1 ++ (component? mark ends s).2 = s := by
  unfold component?
  split
  · next opens =>
    obtain ⟨behind, rfl⟩ := List.isPrefixOf_iff_prefix.mp opens
    simp [marked, List.append_assoc, List.takeWhile_append_dropWhile]
  · rfl

/-- A component holds none of the bytes that end it. -/
theorem ends_of_component? {part : Text} (h : (component? mark ends s).1 = some part) :
    ∀ b ∈ part, ends b = false := by
  unfold component? at h
  split at h
  · intro b member
    rw [← Option.some.inj h] at member
    simpa using List.all_eq_true.mp List.all_takeWhile b member
  · cases h

/-- Behind a component stands a byte that ends it, or nothing. -/
theorem head_of_component? (h : (component? mark ends s).1.isSome = true) {b : Byte}
    (first : (component? mark ends s).2.head? = some b) : ends b = true := by
  unfold component? at h first
  split at h
  · next opens =>
    rw [if_pos opens] at first
    have stop := List.head?_dropWhile_not (!ends ·) (s.drop mark.length)
    simpa [show ((s.drop mark.length).dropWhile (!ends ·)).head? = some b from first] using stop
  · cases h

/-- Where a component is absent its mark does not stand. -/
theorem not_prefix_of_component? (h : (component? mark ends s).1 = none) :
    (component? mark ends s).2 = s ∧ ¬ mark <+: s := by
  unfold component? at h ⊢
  split at h
  · cases h
  · next other =>
    rw [if_neg other]
    exact ⟨rfl, fun opens => other (List.isPrefixOf_iff_prefix.mpr opens)⟩

/-- Behind the path and the query stands a fragment with its mark, or nothing. -/
theorem head_behindQuery {s : Text} {b : Byte} (first : (behindQuery s).head? = some b) :
    b = Byte.hash := by
  cases found : (component? [Byte.question] (· == Byte.hash) (behindPath s)).1 with
  | some q => simpa using head_of_component? (by rw [found]; rfl) first
  | none =>
      obtain ⟨same, other⟩ := not_prefix_of_component? found
      rw [behindQuery, same, behindPath] at first
      have stop := List.head?_dropWhile_not (!endsPath ·) (behindAuthority s)
      rw [first] at stop
      have marks : b = Byte.question ∨ b = Byte.hash :=
        Decidable.or_iff_not_imp_left.mpr (by simpa [endsPath] using stop)
      refine marks.resolve_left fun question => other ?_
      obtain ⟨rest, whole⟩ := List.head?_eq_some_iff.mp first
      exact ⟨rest, by rw [behindPath, whole, question]; rfl⟩

theorem marked_fragment (s : Text) :
    marked [Byte.hash] (component? [Byte.hash] (fun _ => false) (behindQuery s)).1 =
      behindQuery s := by
  have whole := marked_component? [Byte.hash] (fun _ => false) (behindQuery s)
  have nothing : (component? [Byte.hash] (fun _ => false) (behindQuery s)).2 = [] := by
    cases found : (component? [Byte.hash] (fun _ => false) (behindQuery s)).1 with
    | some f =>
        refine List.head?_eq_none_iff.mp (Option.eq_none_iff_forall_ne_some.mpr fun b first => ?_)
        exact absurd (head_of_component? (by rw [found]; rfl) first) (by decide)
    | none =>
        obtain ⟨same, other⟩ := not_prefix_of_component? found
        rw [same]
        refine List.head?_eq_none_iff.mp (Option.eq_none_iff_forall_ne_some.mpr fun b first => other ?_)
        obtain ⟨rest, whole⟩ := List.head?_eq_some_iff.mp first
        exact ⟨rest, by rw [whole, head_behindQuery first]; rfl⟩
  rwa [nothing, List.append_nil] at whole

theorem hierarchy_ofHierarchy (scheme : Option Text) (s : Text) :
    (ofHierarchy scheme s).hierarchy = s := by
  have authority := marked_component? [Byte.slash, Byte.slash] endsAuthority s
  have path := List.takeWhile_append_dropWhile (p := (!endsPath ·)) (l := behindAuthority s)
  have query := marked_component? [Byte.question] (· == Byte.hash) (behindPath s)
  calc (ofHierarchy scheme s).hierarchy
      = marked [Byte.slash, Byte.slash] (component? [Byte.slash, Byte.slash] endsAuthority s).1 ++
          ((behindAuthority s).takeWhile (!endsPath ·) ++
            (marked [Byte.question] (component? [Byte.question] (· == Byte.hash) (behindPath s)).1 ++
              behindQuery s)) := by rw [← marked_fragment]; rfl
    _ = s := by
        rw [behindQuery, query, behindPath, path]
        exact authority

theorem isSplit_ofHierarchy (scheme : Option Text) (s : Text) : (ofHierarchy scheme s).IsSplit where
  authority a found := ends_of_component? found
  path b member := by simpa using List.all_eq_true.mp List.all_takeWhile b member
  rooted h b first := by
    obtain ⟨rest, same⟩ := List.head?_eq_some_iff.mp first
    have whole : (ofHierarchy scheme s).path ++ behindPath s = behindAuthority s :=
      List.takeWhile_append_dropWhile
    have ahead : (behindAuthority s).head? = some b := by rw [← whole, same]; rfl
    have ends : endsAuthority b = true := head_of_component? h ahead
    have stays : endsPath b = false := by
      have all : ∀ b ∈ (ofHierarchy scheme s).path, (!endsPath b) = true :=
        List.all_eq_true.mp List.all_takeWhile
      simpa using all b (by rw [same]; exact List.mem_cons_self)
    simp only [endsPath, Bool.or_eq_false_iff, beq_eq_false_iff_ne] at stays
    simpa [endsAuthority, stays.1, stays.2] using ends
  unrooted absent opens := by
    obtain ⟨same, other⟩ := not_prefix_of_component? absent
    have ahead : behindAuthority s = s := same
    have path : (ofHierarchy scheme s).path <+: behindAuthority s := List.takeWhile_prefix _
    rw [ahead] at path
    exact other (opens.trans path)
  query q found member := by simpa using ends_of_component? found _ member

end Splitting

end Components

/-- A text with a scheme is the scheme, a colon and what stands behind it. -/
theorem exists_of_hasScheme {s : Text} (absolute : hasScheme s = true) :
    ∃ scheme rest, s = scheme ++ Byte.colon :: rest ∧ ∀ b ∈ scheme, isSchemeByte b = true := by
  have ends : ∀ s : Text, endsScheme s = true →
      ∃ scheme rest, s = scheme ++ Byte.colon :: rest ∧ ∀ b ∈ scheme, isSchemeByte b = true := by
    intro s
    induction s with
    | nil => simp [endsScheme]
    | cons b rest ih =>
        intro h
        simp only [endsScheme, Bool.or_eq_true, beq_iff_eq, Bool.and_eq_true] at h
        rcases h with rfl | ⟨hb, hrest⟩
        · exact ⟨[], rest, rfl, fun _ h => absurd h List.not_mem_nil⟩
        · obtain ⟨scheme, behind, rfl, all⟩ := ih hrest
          exact ⟨b :: scheme, behind, rfl, List.forall_mem_cons.mpr ⟨hb, all⟩⟩
  cases s with
  | nil => simp [hasScheme] at absolute
  | cons b rest =>
      simp only [hasScheme, Bool.and_eq_true] at absolute
      obtain ⟨scheme, behind, rfl, all⟩ := ends rest absolute.2
      exact ⟨b :: scheme, behind, rfl,
        List.forall_mem_cons.mpr ⟨isSchemeByte_of_isAlpha absolute.1, all⟩⟩

namespace Components

/-- The components of an absolute text are those behind its scheme. -/
theorem ofText_of_absolute {scheme rest : Text} (absolute : hasScheme (scheme ++ Byte.colon :: rest) = true)
    (all : ∀ b ∈ scheme, isSchemeByte b = true) :
    ofText (scheme ++ Byte.colon :: rest) = ofHierarchy (some scheme) rest := by
  have colons : ∀ b ∈ scheme, (b != Byte.colon) = true :=
    fun b member => ne_of_isSchemeByte (all b member) (by decide)
  have stop : StopsAt (· != Byte.colon) (Byte.colon :: rest) := stopsAt_cons (by decide)
  rw [ofText, if_pos absolute, takeWhile_run colons stop, dropWhile_run colons stop, List.tail_cons]

/-- The components of a text put together again are the text. -/
theorem text_ofText (s : Text) : (ofText s).text = s := by
  by_cases absolute : hasScheme s = true
  · obtain ⟨scheme, rest, rfl, all⟩ := exists_of_hasScheme absolute
    rw [ofText_of_absolute absolute all, text, hierarchy_ofHierarchy]
    simp [ofHierarchy]
  · rw [ofText, if_neg absolute]
    exact hierarchy_ofHierarchy none s

theorem isSplit_ofText (s : Text) : (ofText s).IsSplit := by
  unfold ofText
  split
  · exact isSplit_ofHierarchy _ _
  · exact isSplit_ofHierarchy _ _

/-- Components that are split and have a scheme. -/
structure IsAbsolute (c : Components) : Prop extends c.IsSplit where
  schemed : ∃ scheme, c.scheme = some scheme ∧ ∀ b ∈ scheme, isSchemeByte b = true

theorem isAbsolute_ofText {s : Text} (absolute : hasScheme s = true) : (ofText s).IsAbsolute := by
  refine ⟨isSplit_ofText s, ?_⟩
  obtain ⟨scheme, rest, rfl, all⟩ := exists_of_hasScheme absolute
  exact ⟨scheme, by rw [ofText_of_absolute absolute all]; rfl, all⟩

/-- The scheme and the authority with their marks. -/
def front (c : Components) : Text :=
  (c.scheme.map (· ++ [Byte.colon])).getD [] ++ marked [Byte.slash, Byte.slash] c.authority

/-- The query and the fragment with their marks. -/
def marks (c : Components) : Text :=
  marked [Byte.question] c.query ++ marked [Byte.hash] c.fragment

section Parts
variable {c : Components}

theorem text_eq (c : Components) : c.text = c.front ++ (c.path ++ c.marks) := by
  rw [text, hierarchy, front, List.append_assoc]
  rfl

/-- Behind a path stands a byte that ends it, or nothing. -/
theorem head_marks {b : Byte} (first : c.marks.head? = some b) : endsPath b = true := by
  obtain ⟨scheme, authority, path, query, fragment⟩ := c
  cases query <;> cases fragment <;> simp [marks, marked] at first <;> subst first <;> decide

/-- A text of components without an authority does not open with two slashes. -/
theorem IsSplit.unrooted_hierarchy (split : c.IsSplit) (absent : c.authority = none) :
    ¬ [Byte.slash, Byte.slash] <+: c.hierarchy := by
  have same : c.hierarchy = c.path ++ c.marks := by rw [hierarchy, absent]; rfl
  have single : ∀ rest, c.marks ≠ Byte.slash :: rest := fun rest h =>
    absurd (head_marks (by rw [h]; rfl)) (show endsPath Byte.slash ≠ true by decide)
  rintro ⟨rest, opens⟩
  rw [same] at opens
  match hp : c.path with
  | [] => exact single _ (by rw [hp] at opens; exact opens.symm)
  | [b] =>
      rw [hp] at opens
      exact single _ (List.cons.inj opens).2.symm
  | a :: b :: more =>
      rw [hp] at opens
      obtain ⟨first, opens⟩ := List.cons.inj opens
      obtain ⟨second, -⟩ := List.cons.inj opens
      exact split.unrooted absent ⟨more, by rw [hp, ← first, ← second]; rfl⟩

/-- An authority ends where it is followed by a path, a query or a fragment. -/
theorem IsSplit.stops_behindAuthority (split : c.IsSplit) (present : c.authority.isSome = true) :
    StopsAt (!endsAuthority ·) (c.path ++ c.marks) := by
  intro b first
  cases path : c.path with
  | nil =>
      rw [path] at first
      have ends := head_marks first
      simp only [endsPath, Bool.or_eq_true] at ends
      rcases ends with ends | ends <;> simp [endsAuthority, ends]
  | cons a more =>
      rw [path] at first
      rw [split.rooted present b (by rw [path]; exact first)]
      decide

variable (h : c.IsAbsolute)
include h

theorem IsAbsolute.front_stays {b : Byte} (member : b ∈ c.front) : endsPath b = false := by
  obtain ⟨scheme, named, letters⟩ := h.schemed
  rw [front, named] at member
  rcases List.mem_append.mp member with member | member
  · rcases List.mem_append.mp member with member | member
    · have := ne_of_isSchemeByte (letters b member) (show isSchemeByte Byte.question = false by decide)
      have := ne_of_isSchemeByte (letters b member) (show isSchemeByte Byte.hash = false by decide)
      simp_all [endsPath]
    · rw [List.mem_singleton.mp member]
      decide
  · cases found : c.authority with
    | none => simp [found, marked] at member
    | some a =>
        have bytes := h.authority a found b
        simp only [found, marked, Option.map_some, Option.getD_some, List.cons_append,
          List.nil_append, List.mem_cons] at member
        simp only [endsAuthority, Bool.or_eq_false_iff] at bytes
        rcases member with rfl | rfl | member
        · decide
        · decide
        · simp [endsPath, bytes member]

/-- The text of the path and what is in front of it has no byte that ends a path. -/
theorem IsAbsolute.path_stays {b : Byte} (member : b ∈ c.front ++ c.path) : endsPath b = false :=
  (List.mem_append.mp member).elim h.front_stays (h.path b)

theorem IsAbsolute.scheme_text : Iri.scheme c.text ++ [Byte.colon] =
    (c.scheme.map (· ++ [Byte.colon])).getD [] := by
  obtain ⟨scheme, named, letters⟩ := h.schemed
  have colons : ∀ b ∈ scheme, (b != Byte.colon) = true :=
    fun b member => ne_of_isSchemeByte (letters b member) (by decide)
  rw [text, named, Iri.scheme]
  simp only [Option.map_some, Option.getD_some, List.append_assoc, List.singleton_append]
  rw [takeWhile_run colons (stopsAt_cons (by decide))]

theorem IsAbsolute.schemeSpecific_text : Iri.schemeSpecific c.text = c.hierarchy := by
  obtain ⟨scheme, named, letters⟩ := h.schemed
  have colons : ∀ b ∈ scheme, (b != Byte.colon) = true :=
    fun b member => ne_of_isSchemeByte (letters b member) (by decide)
  rw [text, named, Iri.schemeSpecific]
  simp only [Option.map_some, Option.getD_some, List.append_assoc, List.singleton_append]
  rw [dropWhile_run colons (stopsAt_cons (by decide)), List.tail_cons]

theorem IsAbsolute.authority_text :
    Iri.authority c.text = marked [Byte.slash, Byte.slash] c.authority := by
  rw [Iri.authority, h.schemeSpecific_text]
  cases found : c.authority with
  | none =>
      have other := h.unrooted_hierarchy found
      split
      · next a b rest same =>
        rw [if_neg]
        · rfl
        · rintro slashes
          simp only [Bool.and_eq_true, beq_iff_eq] at slashes
          exact other ⟨rest, by rw [same, slashes.1, slashes.2]; rfl⟩
      · rfl
  | some a =>
      have bytes : ∀ b ∈ a, (!endsAuthority b) = true := fun b member => by
        simpa using h.authority a found b member
      have whole : c.hierarchy = Byte.slash :: Byte.slash :: (a ++ (c.path ++ c.marks)) := by
        rw [hierarchy, found]
        rfl
      rw [whole]
      simp only [beq_self_eq_true, Bool.and_self, if_true]
      rw [takeWhile_run bytes (h.stops_behindAuthority (by rw [found]; rfl))]
      rfl

theorem IsAbsolute.root_text : Iri.root c.text = c.front := by
  rw [Iri.root, h.authority_text, front, ← h.scheme_text]
  simp

theorem IsAbsolute.withoutFragment_text :
    Iri.withoutFragment c.text = c.front ++ (c.path ++ marked [Byte.question] c.query) := by
  have whole : c.text = (c.front ++ (c.path ++ marked [Byte.question] c.query)) ++
      marked [Byte.hash] c.fragment := by rw [text_eq, marks]; simp
  rw [whole, Iri.withoutFragment]
  refine takeWhile_run (fun b member => ?_) ?_
  · rw [← List.append_assoc] at member
    rcases List.mem_append.mp member with member | member
    · have stays := h.path_stays member
      simp only [endsPath, Bool.or_eq_false_iff, beq_eq_false_iff_ne] at stays
      simpa using stays.2
    · cases found : c.query with
      | none => simp [found, marked] at member
      | some q =>
          simp only [found, marked, Option.map_some, Option.getD_some, List.singleton_append,
            List.mem_cons] at member
          rcases member with rfl | member
          · decide
          · simp only [bne_iff_ne]
            rintro rfl
            exact h.query q found member
  · cases c.fragment with
    | none => exact stopsAt_nil _
    | some f => exact stopsAt_cons (by decide)

theorem IsAbsolute.withoutQuery_text : Iri.withoutQuery c.text = c.front ++ c.path := by
  rw [Iri.withoutQuery, h.withoutFragment_text, ← List.append_assoc]
  refine takeWhile_run (fun b member => ?_) ?_
  · have stays := h.path_stays member
    simp only [endsPath, Bool.or_eq_false_iff, beq_eq_false_iff_ne] at stays
    simpa using stays.1
  · cases c.query with
    | none => exact stopsAt_nil _
    | some q => exact stopsAt_cons (by decide)

end Parts

end Components

namespace Components

section Resolving
variable {b r : Components} (absolute : b.IsAbsolute)
include absolute

/-- A reference with an authority takes the scheme of the base. -/
theorem IsAbsolute.resolve_authority {a : Text} (relative : r.scheme = none)
    (found : r.authority = some a) : resolve b.text r.text = (b.target r).text := by
  have target : (b.target r).text = (b.scheme.map (· ++ [Byte.colon])).getD [] ++ r.text := by
    simp [Components.target, text, relative, found, hierarchy]
  have opens : r.text = Byte.slash :: Byte.slash :: (a ++ (r.path ++ r.marks)) := by
    simp [text, relative, hierarchy, found, marked, marks]
  rw [target, ← absolute.scheme_text, opens, resolve]
  simp [show (Byte.slash == Byte.hash) = false by decide]

/-- A reference without a path takes all of the base in front of what it opens with. -/
theorem IsAbsolute.resolve_pathless (relative : r.scheme = none) (absent : r.authority = none)
    (pathless : r.path = []) : resolve b.text r.text = (b.target r).text := by
  have whole : r.text = r.marks := by
    simp [text, relative, hierarchy, absent, pathless, marked, marks]
  have target : (b.target r).text = b.front ++
      (b.path ++ (marked [Byte.question] (r.query.or b.query) ++ marked [Byte.hash] r.fragment)) := by
    simp [Components.target, text_eq, front, marks, relative, absent, pathless]
  rw [target, whole, marks]
  cases query : r.query with
  | some q =>
      simp [marked, resolve, show (Byte.question == Byte.hash) = false by decide,
        show (Byte.question == Byte.slash) = false by decide, absolute.withoutQuery_text]
  | none =>
      cases fragment : r.fragment with
      | some f => simp [marked, resolve, absolute.withoutFragment_text]
      | none => simp [marked, resolve, absolute.withoutFragment_text]

/-- A reference whose path opens with a slash takes the scheme and the authority of the base. -/
theorem IsAbsolute.resolve_rooted (split : r.IsSplit) (relative : r.scheme = none)
    (absent : r.authority = none) (rooted : r.path.head? = some Byte.slash) :
    resolve b.text r.text = (b.target r).text := by
  obtain ⟨rest, path⟩ := List.head?_eq_some_iff.mp rooted
  have whole : r.text = Byte.slash :: (rest ++ r.marks) := by
    simp [text, relative, hierarchy, absent, path, marked, marks]
  have single : (rest ++ r.marks).head? ≠ some Byte.slash := by
    intro second
    obtain ⟨more, same⟩ := List.head?_eq_some_iff.mp second
    refine split.unrooted_hierarchy absent ⟨more, ?_⟩
    have hierarchical : r.text = r.hierarchy := by simp [text, relative]
    rw [← hierarchical, whole, same]
    rfl
  have target : (b.target r).text = b.front ++ r.text := by
    simp [Components.target, text_eq, front, marks, relative, absent, path, marked]
  rw [target, whole, ← absolute.root_text, resolve, if_neg (by decide), if_pos (by decide),
    if_neg single]

/-- The folder of the base is cut out by the place of its path. -/
theorem IsAbsolute.folder_text :
    (Iri.withoutQuery b.text).drop (Iri.root b.text).length = b.path := by
  rw [absolute.withoutQuery_text, absolute.root_text, List.drop_left]

end Resolving

/-- Any other reference is merged with the folder of the base. -/
theorem resolve_merged {b r : Components} (split : r.IsSplit) (relative : r.scheme = none)
    (absent : r.authority = none) (path : r.path ≠ []) (unrooted : r.path.head? ≠ some Byte.slash) :
    resolve b.text r.text = Iri.merge b.text r.text ∧
      (b.target r).text = b.front ++ (merge b r.path ++ r.marks) := by
  obtain ⟨first, rest, same⟩ := List.exists_cons_of_ne_nil path
  have whole : r.text = first :: (rest ++ r.marks) := by
    simp [text, relative, hierarchy, absent, same, marked, marks]
  have stays := split.path first (by rw [same]; exact List.mem_cons_self)
  simp only [endsPath, Bool.or_eq_false_iff] at stays
  have slash : (first == Byte.slash) = false := by
    rw [same] at unrooted
    simpa using unrooted
  constructor
  · rw [whole, resolve]
    simp [stays.1, stays.2, slash]
  · simp [Components.target, text_eq, front, marks, relative, absent, path, unrooted]

end Components

theorem directory_eq_nil_iff {path : Text} : directory path = [] ↔ Byte.slash ∉ path := by
  rw [directory, List.reverse_eq_nil_iff]
  constructor
  · intro nothing member
    have kept := List.takeWhile_append_dropWhile (p := (· != Byte.slash)) (l := path.reverse)
    rw [nothing, List.append_nil] at kept
    have all := List.all_eq_true.mp (List.all_takeWhile (p := (· != Byte.slash)) (l := path.reverse))
    rw [kept] at all
    simpa using all Byte.slash (List.mem_reverse.mpr member)
  · intro other
    refine List.head?_eq_none_iff.mp (Option.eq_none_iff_forall_ne_some.mpr fun b first => ?_)
    have stop := List.head?_dropWhile_not (· != Byte.slash) path.reverse
    rw [first] at stop
    have slash : b = Byte.slash := by simpa using stop
    have member := (List.dropWhile_sublist _).subset (List.mem_of_mem_head? first)
    exact other (slash ▸ List.mem_reverse.mp member)

/-- Where the base has neither an authority nor a folder, a path is put behind a slash; in all other
cases resolving is the transform on components. -/
theorem resolve_components {b r : Components} (absolute : b.IsAbsolute) (split : r.IsSplit)
    (relative : r.scheme = none) :
    (¬ b.Strays r → resolve b.text r.text = (b.target r).text) ∧
    (b.Strays r → resolve b.text r.text = b.front ++ Byte.slash :: r.text ∧
      (b.target r).text = b.front ++ r.text) := by
  -- the kinds of reference in the order in which the transform asks for them
  cases found : r.authority with
  | some a =>
      exact ⟨fun _ => absolute.resolve_authority relative found,
        fun strays => absurd strays.2.2.1 (by rw [found]; exact Option.some_ne_none a)⟩
  | none =>
  by_cases path : r.path = []
  · exact ⟨fun _ => absolute.resolve_pathless relative found path,
      fun strays => absurd path strays.2.2.2.1⟩
  by_cases rooted : r.path.head? = some Byte.slash
  · exact ⟨fun _ => absolute.resolve_rooted split relative found rooted,
      fun strays => absurd rooted strays.2.2.2.2⟩
  obtain ⟨merged, target⟩ := Components.resolve_merged (b := b) split relative found path rooted
  have whole : r.text = r.path ++ r.marks := by
    rw [Components.text_eq, Components.front, relative, found]
    rfl
  rw [merged, target, Iri.merge, absolute.folder_text, absolute.root_text, Components.merge]
  by_cases folder : Byte.slash ∈ b.path
  · have kept : directory b.path ≠ [] := fun nothing => directory_eq_nil_iff.mp nothing folder
    have nonempty : b.path ≠ [] := List.ne_nil_of_mem folder
    exact ⟨fun _ => by simp [kept, nonempty, whole], fun strays => absurd folder strays.2.1⟩
  · have nothing : directory b.path = [] := directory_eq_nil_iff.mpr folder
    cases authority : b.authority with
    | none =>
        have strays : b.Strays r := ⟨authority, folder, found, path, rooted⟩
        exact ⟨fun straight => absurd strays straight,
          fun _ => ⟨by simp [nothing], by simp [nothing, whole]⟩⟩
    | some a =>
        -- a path behind an authority opens with a slash, so without a slash there is none
        have empty : b.path = [] := by
          cases same : b.path with
          | nil => rfl
          | cons first rest =>
              have slash := absolute.rooted (by rw [authority]; rfl) first (by rw [same]; rfl)
              exact absurd (by rw [same, slash]; exact List.mem_cons_self) folder
        rw [empty] at nothing
        exact ⟨fun _ => by simp [nothing, empty, whole],
          fun strays => absurd strays.1 (by rw [authority]; exact Option.some_ne_none a)⟩

/-- Resolving a relative reference against an absolute base is the transform on components with dot
segments kept, unless the base has neither an authority nor a slash in its path and the reference
opens with a segment. Then a slash stands in front of the reference that the transform does not
put there. -/
theorem resolve_eq_target_iff {base reference : Text} (absolute : hasScheme base = true)
    (relative : hasScheme reference = false) :
    let b := Components.ofText base
    let r := Components.ofText reference
    (resolve base reference = (b.target r).text ↔ ¬ b.Strays r) ∧
    (b.Strays r → resolve base reference = root base ++ Byte.slash :: reference ∧
      (b.target r).text = root base ++ reference) := by
  intro b r
  have hb : b.IsAbsolute := Components.isAbsolute_ofText absolute
  have hr : r.scheme = none := by simp [r, Components.ofText, relative, Components.ofHierarchy]
  have same : b.text = base := Components.text_ofText base
  have alike : r.text = reference := Components.text_ofText reference
  obtain ⟨straight, strays⟩ := resolve_components hb (Components.isSplit_ofText reference) hr
  rw [← hb.root_text] at strays
  rw [same, alike] at straight strays
  refine ⟨⟨fun equal stray => ?_, straight⟩, strays⟩
  obtain ⟨resolved, target⟩ := strays stray
  rw [resolved, target, List.append_right_inj] at equal
  exact absurd (congrArg List.length equal) (by simp)

/-- A segment against a base in a folder, and the same segment against a base that has neither an
authority nor a folder. -/
theorem resolve_eq_target_segment :
    resolve (utf8 "http://a/b/c?q#f") (utf8 "d?e#g") =
        ((Components.ofText (utf8 "http://a/b/c?q#f")).target (Components.ofText (utf8 "d?e#g"))).text ∧
      resolve (utf8 "urn:a") (utf8 "b") = root (utf8 "urn:a") ++ Byte.slash :: utf8 "b" ∧
      ((Components.ofText (utf8 "urn:a")).target (Components.ofText (utf8 "b"))).text =
        root (utf8 "urn:a") ++ utf8 "b" :=
  ⟨(resolve_eq_target_iff (by decide) (by decide)).1.mpr (by decide),
    (resolve_eq_target_iff (by decide) (by decide)).2 (by decide)⟩

end SparqlMetrics.Iri
