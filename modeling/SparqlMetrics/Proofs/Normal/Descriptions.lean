import SparqlMetrics.Proofs.Normal.Passes
import SparqlMetrics.Proofs.Normal.Trees

/-!
# The line of a description

A description names its resources on the line of its keyword. It is the one line of a query that ends
with an IRI behind another IRI or a variable, so what stands in front of the IRI need not be the word
of a clause. The line ends like the declaration of a base if the IRI is the base, written between
brackets, and the resource in front of it ends with the letters of the declaration's word
(`Chunk.suffix_descriptionLine_iff`). It never ends like the declaration of a namespace.
-/
namespace SparqlMetrics

open SparqlMetrics.Normal Lexeme Chunk

/-- A resource of a description and the chunk that it is written as. -/
inductive Term.IsChunk (ns : Namespaces) : Term → Chunk → Prop
  | name {iri : Text} {span : Span} {entry : Text × Text} : ns.entryFor? iri = some entry →
      IsChunk ns ⟨.iri iri, span⟩ (.token (entry.1 ++ Byte.colon :: iri.drop entry.2.length)
        (.prefixedName entry.1 (iri.drop entry.2.length)) Byte.continuesName)
  | bracketed {iri : Text} {span : Span} : ns.entryFor? iri = none → IsCleanIri iri →
      IsChunk ns ⟨.iri iri, span⟩ (.token (Text.angled iri) (.iri iri) fun _ => false)
  | var {name : Text} {span : Span} : IsVariableName name →
      IsChunk ns ⟨.var name, span⟩
        (.token (Byte.question :: name) (.variableName name) Byte.continuesName)

/-- Whether a resource is written with the letters of a base declaration's word at its end, and stays
so until the names of the default namespace are replaced. -/
def Term.EndsInBase (ns : Namespaces) (t : Term) : Prop :=
  match t.node with
  | .var name => utf8 "BASE" <:+ name
  | .iri value => ∃ entry, ns.entryFor? value = some entry ∧ entry.1 = [] ∧
      utf8 "BASE" <:+ value.drop entry.2.length
  | _ => False

/-- Behind a mark that it does not hold, the end of a text is the end of what stands there. -/
theorem suffix_of_append_cons {w x y : Text} {mark : Byte} (free : mark ∉ w)
    (h : w <:+ x ++ mark :: y) : w <:+ y := by
  obtain ⟨t, same⟩ := h
  rcases List.append_eq_append_iff.mp same with ⟨more, _, behind⟩ | ⟨more, _, behind⟩
  · rw [behind] at free
    exact absurd (List.mem_append_right _ List.mem_cons_self) free
  · cases more with
    | nil =>
        rw [List.nil_append] at behind
        rw [← behind] at free
        exact absurd List.mem_cons_self free
    | cons b more =>
        rw [List.cons_append] at behind
        exact ⟨more, (List.cons.inj behind).2.symm⟩

/-- A declared namespace can be written as a name without a local part. -/
theorem Namespaces.entryFor?_ne_none {ns : Namespaces} {entry : Text × Text}
    (member : entry ∈ ns.entries) (absolute : Iri.hasScheme entry.2 = true) :
    ns.entryFor? entry.2 ≠ none := by
  have nonempty : entry.2 ≠ [] := by
    intro empty
    rw [empty] at absolute
    cases absolute
  have shortens : canShorten entry.2 entry = true := by
    have plain : isPlainLocalName [] = true := by decide
    simp [canShorten, nonempty, plain]
  have kept : ∀ (entries : List (Text × Text)) (best : Option (Text × Text)),
      entries ≠ [] ∨ best ≠ none → entries.foldl longerEntry best ≠ none := by
    intro entries
    induction entries with
    | nil => exact fun best nonempty => nonempty.resolve_left (fun h => h rfl)
    | cons first rest ih =>
        intro best _
        refine ih _ (.inr ?_)
        cases best with
        | none => simp [longerEntry]
        | some known =>
            simp only [longerEntry]
            split <;> simp
  exact kept _ none (.inl (List.ne_nil_of_mem (List.mem_filter.mpr ⟨member, shortens⟩)))

namespace Term.IsChunk

variable {ns : Namespaces} {t : Term} {c : Chunk} {cs : List Chunk} {which : Text → Bool}

theorem text_eq (h : t.IsChunk ns c) : c.text = t.write ns := by
  cases h with
  | name found => simp [Chunk.text, Term.write, Namespaces.writeIri, found]
  | bracketed none => simp [Chunk.text, Term.write, Namespaces.writeIri, none]
  | var => rfl

/-- A legal resource is written as one chunk. -/
theorem of_resource (legal : t.node.Legal true) (clean : t.node.Clean)
    (resource : t.node.isIri = true ∨ t.node.isVar = true) : ∃ c, t.IsChunk ns c := by
  obtain ⟨node, span⟩ := t
  cases node with
  | iri iri =>
      cases found : ns.entryFor? iri with
      | some entry => exact ⟨_, .name found⟩
      | none => exact ⟨_, .bracketed found clean⟩
  | var name => exact ⟨_, .var legal⟩
  | _ => simp [Node.isIri, Node.isVar] at resource

/-- The chunk of a resource under some declarations comes from the one under none. -/
theorem under (h : t.IsChunk {} c) (ns : Namespaces) : t.IsChunk ns (c.under ns) := by
  cases h with
  | name found => cases found
  | @bracketed iri span none clean =>
      show IsChunk ns ⟨.iri iri, span⟩ (Chunk.reference ns iri)
      unfold Chunk.reference
      cases found : ns.entryFor? iri with
      | some entry => exact .name found
      | none => exact .bracketed found clean
  | var isName => exact .var isName

theorem laid (hns : ns.Plain) (h : t.IsChunk ns c) (behind : Laid ns cs) (breaks : Breaks (texts cs)) :
    Laid ns (c :: cs) := by
  cases h with
  | name found =>
      obtain ⟨member, shortens⟩ := Namespaces.canShorten_of_entryFor? found
      simp only [canShorten, Bool.and_eq_true] at shortens
      exact ⟨writtenAs_prefixedName (hns.label _ member (hns.noColon _ member)) member shortens.2,
        breaks, behind⟩
  | bracketed _ clean => exact ⟨writtenAs_iri clean, fun _ _ => rfl, behind⟩
  | var isName => exact ⟨writtenAs_variable isName, breaks, behind⟩

/-- With names replaced a resource is a reference or what it was. -/
theorem rename_eq (h : t.IsChunk ns c) (which : Text → Bool) :
    c.rename which false = Chunk.placeholder ∨ c.rename which false = c := by
  cases h with
  | name =>
      rw [rename]
      split
      · exact .inl rfl
      · exact .inr rfl
  | bracketed => exact .inr rfl
  | var => exact .inr rfl

theorem newline_not_mem (hns : ns.Plain) (h : t.IsChunk ns c) :
    Byte.newline ∉ (c.rename which false).text := by
  rcases h.rename_eq which with same | same
  · rw [same]
    decide
  · rw [same]
    have written : Laid ns [c] := h.laid hns trivial (stopsAt_nil _)
    cases h with
    | name => exact written.1.oneLine
    | bracketed => exact written.1.oneLine
    | var => exact written.1.oneLine

/-- A resource that ends with a bracket is an IRI between brackets; an absolute one is the resource
itself. -/
theorem bracket (hns : ns.Plain) (h : t.IsChunk ns c)
    (last : (c.rename which false).text.getLast? = some Byte.greater) :
    ∃ iri, IsCleanIri iri ∧ (c.rename which false).text = Text.angled iri ∧
      (Iri.hasScheme iri = true → t.node = .iri iri ∧ ns.entryFor? iri = none) := by
  rcases h.rename_eq which with same | same
  · refine ⟨utf8 "r", by decide, by rw [same]; decide, fun absolute => ?_⟩
    exact absurd absolute (by decide)
  · rw [same] at last ⊢
    have written : Laid ns [c] := h.laid hns trivial (stopsAt_nil _)
    cases h with
    | name =>
        rcases written.1.bracket last with shunned | ⟨_, _, _, isIri⟩
        · exact absurd shunned (by decide)
        · cases isIri
    | @bracketed iri _ none clean => exact ⟨iri, clean, rfl, fun _ => ⟨rfl, none⟩⟩
    | var =>
        rcases written.1.bracket last with shunned | ⟨_, _, _, isIri⟩
        · exact absurd shunned (by decide)
        · cases isIri

/-- With the names of all other labels replaced, a resource ends with the letters of the word if and
only if it did before. -/
theorem base_suffix_iff (h : t.IsChunk ns c) (kept : which [] = false)
    (others : ∀ entry ∈ ns.entries, entry.1 ≠ [] → which entry.1 = true) :
    utf8 "BASE" <:+ (c.rename which false).text ↔ t.EndsInBase ns := by
  have letters : Byte.question ∉ utf8 "BASE" ∧ Byte.colon ∉ utf8 "BASE" := by decide
  have noBracket : ∀ front : Text, ¬ utf8 "BASE" <:+ front ++ [Byte.greater] := by
    rintro front ⟨t, same⟩
    have lasts := congrArg List.getLast? same
    rw [List.getLast?_append_of_ne_nil _ (by decide), List.getLast?_concat] at lasts
    exact absurd lasts (by decide)
  cases h with
  | @name iri span entry found =>
      obtain ⟨member, _⟩ := Namespaces.canShorten_of_entryFor? found
      rw [rename, Bool.not_false, Bool.and_true]
      by_cases default : entry.1 = []
      · rw [default, kept]
        refine ⟨fun ends => ⟨entry, found, default, suffix_of_append_cons letters.2 ends⟩, ?_⟩
        rintro ⟨other, same, _, ends⟩
        obtain rfl := Option.some.inj (found.symm.trans same)
        exact ends.trans (List.suffix_cons _ _)
      · rw [others entry member default]
        refine iff_of_false (noBracket (utf8 "<r")) ?_
        rintro ⟨other, same, empty, _⟩
        obtain rfl := Option.some.inj (found.symm.trans same)
        exact default empty
  | @bracketed iri span none clean =>
      refine iff_of_false (noBracket (Byte.less :: iri)) ?_
      rintro ⟨other, same, _⟩
      rw [none] at same
      cases same
  | @var name span isName =>
      exact ⟨fun ends => suffix_of_append_cons (x := []) letters.1 ends,
        fun ends => ends.trans (List.suffix_cons _ _)⟩

end Term.IsChunk

namespace Chunk

/-- The words that open a description. -/
def descriptionHead (everything : Bool) : List Chunk :=
  .token (utf8 "DESCRIBE") (.keyword .DESCRIBE (utf8 "DESCRIBE")) Byte.continuesName ::
    if everything then [.gap Byte.space, .token [Byte.star] (.symbol .star) fun _ => false] else []

/-- The line of a description without its end, with the chunks of its resources. -/
def descriptionLine (everything : Bool) (cs : List Chunk) : List Chunk :=
  descriptionHead everything ++ cs.flatMap fun c => [.gap Byte.space, c]

variable {ns : Namespaces} {everything : Bool} {ws : List (Term × Chunk)} {cs rest : List Chunk}
  {which : Text → Bool} {d : Declaration}

/-- Resources with their chunks. -/
def Describes (ns : Namespaces) (ws : List (Term × Chunk)) : Prop := ∀ w ∈ ws, w.1.IsChunk ns w.2

/-- The chunks of resources with names replaced. -/
def renamed (which : Text → Bool) (ws : List (Term × Chunk)) : List Chunk :=
  ws.map fun w => w.2.rename which false

theorem exists_describes (ns : Namespaces) {targets : List Term}
    (legal : ∀ t ∈ targets, t.node.Legal true ∧ t.node.Clean)
    (resources : ∀ t ∈ targets, t.node.isIri = true ∨ t.node.isVar = true) :
    ∃ ws, ws.map (·.1) = targets ∧ Describes ns ws := by
  induction targets with
  | nil => exact ⟨[], rfl, List.forall_mem_nil _⟩
  | cons t targets ih =>
      obtain ⟨c, isChunk⟩ : ∃ c, t.IsChunk ns c := Term.IsChunk.of_resource
        (legal t List.mem_cons_self).1 (legal t List.mem_cons_self).2 (resources t List.mem_cons_self)
      obtain ⟨ws, same, describes⟩ := ih (fun t member => legal t (List.mem_cons_of_mem _ member))
        fun t member => resources t (List.mem_cons_of_mem _ member)
      exact ⟨(t, c) :: ws, by rw [List.map_cons, same], List.forall_mem_cons.mpr ⟨isChunk, describes⟩⟩

/-- Resources with their chunks under some declarations. -/
def resourcesUnder (ns : Namespaces) (ws : List (Term × Chunk)) : List (Term × Chunk) :=
  ws.map fun w => (w.1, w.2.under ns)

theorem Describes.under (h : Describes {} ws) (ns : Namespaces) :
    Describes ns (resourcesUnder ns ws) := by
  intro w member
  obtain ⟨v, inside, rfl⟩ := List.mem_map.mp member
  exact (h v inside).under ns

theorem map_under_descriptionLine (ns : Namespaces) (ws : List (Term × Chunk)) :
    (descriptionLine everything (ws.map (·.2))).map (under ns) =
      descriptionLine everything ((resourcesUnder ns ws).map (·.2)) := by
  have head : (descriptionHead everything).map (under ns) = descriptionHead everything := by
    cases everything <;> rfl
  rw [descriptionLine, descriptionLine, List.map_append, head]
  simp [resourcesUnder, List.map_flatMap, List.flatMap_map, under]

theorem texts_descriptionHead (everything : Bool) :
    texts (descriptionHead everything) = utf8 (if everything then "DESCRIBE *" else "DESCRIBE") := by
  cases everything <;> decide

theorem texts_descriptionLine (h : Describes ns ws) :
    texts (descriptionLine everything (ws.map (·.2))) =
      utf8 (if everything then "DESCRIBE *" else "DESCRIBE") ++
        (ws.map (·.1)).flatMap fun t => Byte.space :: t.write ns := by
  rw [descriptionLine, texts_append, texts_descriptionHead]
  refine congrArg _ ?_
  induction ws with
  | nil => rfl
  | cons w ws ih =>
      have first := (h w List.mem_cons_self).text_eq
      have tail := ih fun w member => h w (List.mem_cons_of_mem _ member)
      simp only [List.map_cons, List.flatMap_cons, texts_append, tail]
      rw [← first]
      simp [texts, Chunk.text]

theorem texts_descriptionLine_concat (cs : List Chunk) (c : Chunk) :
    texts (descriptionLine everything (cs ++ [c])) =
      texts (descriptionLine everything cs) ++ Byte.space :: c.text := by
  simp [descriptionLine, texts, Chunk.text]

/-- The line of a description in front of text in chunks. -/
theorem laid_descriptionLine (hns : ns.Plain) (h : Describes ns ws) (laid : Laid ns rest) :
    Laid ns (descriptionLine everything (ws.map (·.2)) ++ .gap Byte.newline :: rest) := by
  have white : Byte.space.isSpace = true ∧ Byte.newline.isSpace = true := by decide
  have resources : Laid ns ((ws.map (·.2)).flatMap (fun c => [.gap Byte.space, c]) ++
      .gap Byte.newline :: rest) ∧ Breaks (texts ((ws.map (·.2)).flatMap
        (fun c => [.gap Byte.space, c]) ++ .gap Byte.newline :: rest)) := by
    induction ws with
    | nil => exact ⟨⟨white.2, laid⟩, stopsAt_cons (by decide)⟩
    | cons w ws ih =>
        obtain ⟨tail, breaks⟩ := ih fun w member => h w (List.mem_cons_of_mem _ member)
        exact ⟨⟨white.1, (h w List.mem_cons_self).laid hns tail breaks⟩, stopsAt_cons (by decide)⟩
  obtain ⟨resources, breaks⟩ := resources
  rw [descriptionLine, List.append_assoc]
  cases everything with
  | false => exact ⟨writtenAs_keyword .DESCRIBE, breaks, resources⟩
  | true =>
      exact ⟨writtenAs_keyword .DESCRIBE, stopsAt_cons (by decide), white.1,
        writtenAs_byte (by decide), fun _ _ => rfl, resources⟩

/-- To replace names in the line is to replace them in its resources. -/
theorem renameAll_descriptionLine (h : Describes ns ws) :
    renameAll which false (descriptionLine everything (ws.map (·.2)) ++ .gap Byte.newline :: rest) =
      descriptionLine everything (renamed which ws) ++
        .gap Byte.newline :: renameAll which false rest := by
  have resources : ∀ behindMinus, renameAll which behindMinus
      ((ws.map (·.2)).flatMap (fun c => [.gap Byte.space, c]) ++ .gap Byte.newline :: rest) =
        (renamed which ws).flatMap (fun c => [.gap Byte.space, c]) ++
          .gap Byte.newline :: renameAll which false rest := by
    induction ws with
    | nil => exact fun _ => rfl
    | cons w ws ih =>
        intro behindMinus
        have tail := ih (fun w member => h w (List.mem_cons_of_mem _ member)) w.2.isMinus
        simp only [renamed, List.map_cons, List.flatMap_cons, List.cons_append, List.nil_append]
          at tail ⊢
        rw [renameAll, renameAll, tail]
        rfl
  rw [descriptionLine, descriptionLine, List.append_assoc, List.append_assoc, ← resources false]
  cases everything <;> rfl

theorem newline_not_mem_descriptionLine (hns : ns.Plain) (h : Describes ns ws) :
    Byte.newline ∉ texts (descriptionLine everything (renamed which ws)) := by
  rw [descriptionLine, texts_append, List.mem_append, not_or]
  constructor
  · cases everything <;> decide
  · intro member
    obtain ⟨c, inside, member⟩ := List.mem_flatMap.mp member
    obtain ⟨c', known, inside⟩ := List.mem_flatMap.mp inside
    obtain ⟨w, isResource, rfl⟩ := List.mem_map.mp known
    rcases List.mem_cons.mp inside with rfl | inside
    · exact absurd member (by decide)
    · rw [List.mem_singleton.mp inside] at member
      exact (h w isResource).newline_not_mem hns member

/-- A line that ends like a declaration ends with the IRI of that one between brackets, and in front of
it stands the opening of the declaration. -/
theorem exists_of_suffix_descriptionLine (hns : ns.Plain) (h : Describes ns ws) (hd : d.IsSpelled)
    (absolute : Iri.hasScheme d.iri = true)
    (ends : d.content <:+ texts (descriptionLine everything (renamed which ws))) :
    ∃ (front : List (Term × Chunk)) (last : Term × Chunk), ws = front ++ [last] ∧
      last.1.node = .iri d.iri ∧ ns.entryFor? d.iri = none ∧
      d.opening <:+ texts (descriptionLine everything (renamed which front)) := by
  have last := getLast?_of_suffix ends
  rcases List.eq_nil_or_concat' ws with rfl | ⟨front, w, rfl⟩
  · have head : (texts (descriptionHead everything ++ [])).getLast? ≠ some Byte.greater := by
      cases everything <;> decide
    exact absurd last head
  · rw [renamed, List.map_append, List.map_singleton, texts_descriptionLine_concat] at ends last
    have isChunk := h w (by simp)
    have nonempty : (w.2.rename which false).text ≠ [] := by
      intro empty
      rw [empty, List.getLast?_concat] at last
      exact absurd last (by decide)
    rw [List.getLast?_append_of_ne_nil _ (List.cons_ne_nil _ _),
      List.getLast?_cons_of_ne_nil nonempty] at last
    obtain ⟨iri, clean, same, itself⟩ := isChunk.bracket hns last
    rw [same] at ends
    obtain ⟨opening, rfl⟩ := Declaration.ends_of_suffix hd clean ends
    exact ⟨front, w, rfl, (itself absolute).1, (itself absolute).2, opening⟩

/-- The line of a description does not end like the declaration of a namespace: that IRI is written
as a name. -/
theorem not_suffix_descriptionLine (hns : ns.Plain) (h : Describes ns ws) {entry : Text × Text}
    (member : entry ∈ ns.entries) : ¬ (Declaration.namespace entry.1 entry.2).content <:+
      texts (descriptionLine everything (renamed which ws)) := by
  intro ends
  have absolute := hns.absolute entry member
  obtain ⟨_, _, _, _, noEntry, _⟩ := exists_of_suffix_descriptionLine hns h
    (Declaration.isSpelled_namespace hns member) absolute ends
  exact Namespaces.entryFor?_ne_none member absolute noEntry

/-- The line of a description ends like the declaration of the base if and only if its last resource
is the base between brackets, and the one in front of it ends with the letters of the word. -/
theorem suffix_descriptionLine_iff (hns : ns.Plain) (h : Describes ns ws) {base : Text}
    (found : ns.base = some base) (kept : which [] = false)
    (others : ∀ entry ∈ ns.entries, entry.1 ≠ [] → which entry.1 = true) :
    (Declaration.base base).content <:+ texts (descriptionLine everything (renamed which ws)) ↔
      ∃ front t last, ws.map (·.1) = front ++ [t, last] ∧ last.node = .iri base ∧
        ns.entryFor? base = none ∧ t.EndsInBase ns := by
  constructor
  · intro ends
    obtain ⟨front, last, rfl, isBase, noEntry, word⟩ := exists_of_suffix_descriptionLine hns h
      (Declaration.isSpelled_base hns found) (hns.base base found).1 ends
    rcases List.eq_nil_or_concat' front with rfl | ⟨front, v, rfl⟩
    · have head : ¬ utf8 "BASE" <:+ texts (descriptionHead everything ++ []) := by
        cases everything <;> decide
      exact absurd word head
    · rw [renamed, List.map_append, List.map_singleton, texts_descriptionLine_concat] at word
      have letters : utf8 "BASE" <:+ (v.2.rename which false).text :=
        suffix_of_append_cons (by decide) word
      have isChunk := h v (by simp)
      exact ⟨front.map (·.1), v.1, last.1, by simp, isBase, noEntry,
        (isChunk.base_suffix_iff kept others).mp letters⟩
  · rintro ⟨front, t, last, resources, isBase, noEntry, letters⟩
    obtain ⟨fs, tail, rfl, rfl, two⟩ := List.map_eq_append_iff.mp resources
    obtain ⟨v, ws, rfl, rfl, one⟩ := List.map_eq_cons_iff.mp two
    obtain ⟨w, _, rfl, rfl, nothing⟩ := List.map_eq_cons_iff.mp one
    obtain rfl := List.map_eq_nil_iff.mp nothing
    have word := ((h v (by simp)).base_suffix_iff kept others).mpr letters
    have reference : (w.2.rename which false).text = Text.angled base := by
      have isChunk := h w (by simp)
      obtain ⟨⟨node, span⟩, c⟩ := w
      obtain rfl : node = .iri base := isBase
      cases isChunk with
      | name entry =>
          rw [noEntry] at entry
          cases entry
      | bracketed => rfl
    have split : texts (descriptionLine everything (renamed which (fs ++ [v, w]))) =
        texts (descriptionLine everything (renamed which fs)) ++ Byte.space ::
          ((v.2.rename which false).text ++ Byte.space :: Text.angled base) := by
      simp [renamed, descriptionLine, texts, Chunk.text, ← reference]
    obtain ⟨pre, same⟩ := word
    rw [split, ← same]
    refine ⟨texts (descriptionLine everything (renamed which fs)) ++ Byte.space :: pre, ?_⟩
    simp [Declaration.content, Declaration.opening, Declaration.iri]

end Chunk

end SparqlMetrics
