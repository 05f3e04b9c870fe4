import SparqlMetrics.Proofs.DeclarationRemoval

/-!
# Prefix labels and normalized texts

Under other labels a query is written alike but for its prefixed names. Normalization puts one
reference for each of them, so its text does not depend on the labels, unless a name is kept: the
scanner of names takes a minus sign right in front of a name for a part of the word. Main statement:
`QueryUnit.normalText_relabel`.
-/
namespace SparqlMetrics

open SparqlMetrics.Normal Lexeme Chunk

namespace Lexeme

def label? : Lexeme → Option Text
  | .prefixedName label _ => some label
  | _ => none

theorem mem_filterMap_label? {label : Text} {tokens : List Lexeme} :
    label ∈ tokens.filterMap label? ↔ ∃ name, .prefixedName label name ∈ tokens := by
  rw [List.mem_filterMap]
  constructor
  · rintro ⟨l, member, found⟩
    cases l <;> cases found
    exact ⟨_, member⟩
  · rintro ⟨name, member⟩
    exact ⟨_, member, rfl⟩

end Lexeme

namespace Namespaces

def relabelEntry (f : Text → Text) (entry : Text × Text) : Text × Text := (f entry.1, entry.2)

/-- The same namespaces and base under other labels. -/
def relabel (f : Text → Text) (ns : Namespaces) : Namespaces :=
  { ns with entries := ns.entries.map (relabelEntry f) }

/-- Whether labels are changed to others that can be written, each to one of its own, and the empty
one is not. -/
structure Relabels (ns : Namespaces) (f : Text → Text) : Prop where
  empty : f [] = []
  label : ∀ entry ∈ ns.entries, entry.1 ≠ [] → f entry.1 ≠ [] ∧ IsPrefixLabel (f entry.1)
  injective : ∀ entry ∈ ns.entries, ∀ other ∈ ns.entries,
    f entry.1 = f other.1 → entry.1 = other.1

variable {f : Text → Text} {ns : Namespaces} {entry : Text × Text}

theorem Relabels.eq_nil_iff (h : ns.Relabels f) (member : entry ∈ ns.entries) :
    f entry.1 = [] ↔ entry.1 = [] :=
  ⟨fun same => by_contra fun named => (h.label entry member named).1 same,
    fun same => by rw [same, h.empty]⟩

theorem Relabels.isPrefixLabel (h : ns.Relabels f) (member : entry ∈ ns.entries) :
    IsPrefixLabel (f entry.1) := by
  by_cases default : entry.1 = []
  · rw [default, h.empty]
    exact .inl rfl
  · exact (h.label entry member default).2

theorem Plain.relabel (hns : ns.Plain) (h : ns.Relabels f) : (ns.relabel f).Plain where
  nodup := by
    have labels : (ns.relabel f).entries.map (·.1) = (ns.entries.map (·.1)).map f := by
      simp [Namespaces.relabel, relabelEntry]
    rw [labels]
    refine hns.nodup.map_on fun label member other member' same => ?_
    obtain ⟨entry, inside, rfl⟩ := List.mem_map.mp member
    obtain ⟨entry', inside', rfl⟩ := List.mem_map.mp member'
    exact h.injective entry inside entry' inside' same
  label _ member _ := by
    obtain ⟨entry, inside, rfl⟩ := List.mem_map.mp member
    exact h.isPrefixLabel inside
  absolute _ member := by
    obtain ⟨entry, inside, rfl⟩ := List.mem_map.mp member
    exact hns.absolute entry inside
  clean _ member := by
    obtain ⟨entry, inside, rfl⟩ := List.mem_map.mp member
    exact hns.clean entry inside
  base := hns.base
  noColon _ member := by
    obtain ⟨entry, inside, rfl⟩ := List.mem_map.mp member
    intro colon
    exact absurd (Declaration.isLabelByte_of_mem (h.isPrefixLabel inside) colon) (by decide)

/-- An IRI is written under the same namespace, whatever its label is. -/
theorem entryFor?_relabel (f : Text → Text) (ns : Namespaces) (iri : Text) :
    (ns.relabel f).entryFor? iri = (ns.entryFor? iri).map (relabelEntry f) := by
  have longer : ∀ (best : Option (Text × Text)) (entry : Text × Text),
      longerEntry (best.map (relabelEntry f)) (relabelEntry f entry) =
        (longerEntry best entry).map (relabelEntry f) := by
    intro best entry
    cases best with
    | none => rfl
    | some known =>
        by_cases longer : known.2.length < entry.2.length <;>
          simp [longerEntry, relabelEntry, longer]
  have fold : ∀ (entries : List (Text × Text)) (best : Option (Text × Text)),
      (entries.map (relabelEntry f)).foldl longerEntry (best.map (relabelEntry f)) =
        (entries.foldl longerEntry best).map (relabelEntry f) := by
    intro entries
    induction entries with
    | nil => exact fun _ => rfl
    | cons entry entries ih =>
        intro best
        rw [List.map_cons, List.foldl_cons, longer, ih, List.foldl_cons]
  have shortening : (ns.relabel f).entries.filter (canShorten iri) =
      (ns.entries.filter (canShorten iri)).map (relabelEntry f) := by
    rw [relabel, List.filter_map]
    rfl
  rw [entryFor?, shortening]
  exact fold _ none

/-- The entry of the default namespace, if there is one. -/
def defaults (ns : Namespaces) : List (Text × Text) := ns.entries.filter (·.1.isEmpty)

theorem defaults_relabel (h : ns.Relabels f) : (ns.relabel f).defaults = ns.defaults := by
  have same : ∀ entries : List (Text × Text), (∀ entry ∈ entries, f entry.1 = [] ↔ entry.1 = []) →
      (entries.map (relabelEntry f)).filter (·.1.isEmpty) = entries.filter (·.1.isEmpty) := by
    intro entries alike
    induction entries with
    | nil => rfl
    | cons entry entries ih =>
        have tail := ih fun other member => alike other (List.mem_cons_of_mem _ member)
        have head := alike entry List.mem_cons_self
        by_cases default : entry.1 = []
        · have kept : relabelEntry f entry = entry :=
            Prod.ext ((head.mpr default).trans default.symm) rfl
          rw [List.map_cons, List.filter_cons, List.filter_cons, tail, kept]
        · rw [List.map_cons, List.filter_cons_of_neg (by simpa [relabelEntry, head] using default),
            List.filter_cons_of_neg (by simpa using default), tail]
  exact same ns.entries fun entry member => h.eq_nil_iff member

theorem removesBase_relabel (h : ns.Relabels f) : removesBase (ns.relabel f) = removesBase ns := by
  have default : ((ns.relabel f).entries.any fun entry => entry.1.isEmpty) =
      ns.entries.any fun entry => entry.1.isEmpty := by
    rw [relabel, List.any_map]
    refine Bool.eq_iff_iff.mpr ?_
    simp only [List.any_eq_true, Function.comp, relabelEntry, List.isEmpty_iff]
    exact exists_congr fun entry => and_congr_right fun member => h.eq_nil_iff member
  rw [removesBase, removesBase, default]
  rfl

theorem remaining_relabel (h : ns.Relabels f) : remaining (ns.relabel f) = remaining ns := by
  rw [remaining, remaining, removesBase_relabel h]
  rfl

end Namespaces

namespace Chunk

variable {f which : Text → Bool} {ns : Namespaces} {c : Chunk} {cs : List Chunk} {b : Bool}

/-- A prefixed name in chunks. -/
def ofName (label name : Text) : Chunk :=
  .token (label ++ Byte.colon :: name) (.prefixedName label name) Byte.continuesName

def isName : Chunk → Bool
  | .token _ (.prefixedName _ _) _ => true
  | _ => false

theorem rename_of_isName (h : c.isName = false) (b : Bool) : c.rename which b = c := by
  cases c with
  | gap => rfl
  | token word l shuns => cases l <;> first | rfl | cases h

theorem isName_of_lexeme? {label name : Text} (h : c.lexeme? = some (.prefixedName label name)) :
    c.isName = true := by
  cases c with
  | gap => cases h
  | token word l shuns =>
      obtain rfl := Option.some.inj h
      rfl

theorem isMinus_under (ns : Namespaces) (c : Chunk) : (c.under ns).isMinus = c.isMinus := by
  cases c with
  | gap => rfl
  | token word l shuns =>
      cases l with
      | iri value =>
          show (reference ns value).isMinus = false
          unfold reference
          cases ns.entryFor? value <;> rfl
      | _ => rfl

theorem lexemes_cons (c : Chunk) (cs : List Chunk) :
    lexemes (c :: cs) = c.lexeme?.toList ++ lexemes cs := by
  rw [lexemes, List.filterMap_cons]
  cases c.lexeme? <;> rfl

/-- Without declarations there are no names. -/
theorem isName_of_laid (h : Laid {} (cs.map (under {}))) : ∀ c ∈ cs, c.isName = false := by
  induction cs with
  | nil => exact List.forall_mem_nil _
  | cons c cs ih =>
      cases c with
      | gap => exact List.forall_mem_cons.mpr ⟨rfl, ih h.2⟩
      | token word l shuns =>
          cases l with
          | prefixedName label name =>
              obtain ⟨⟨entry, member, _⟩, _⟩ := h.1.name label name rfl
              cases member
          | iri value => exact List.forall_mem_cons.mpr ⟨rfl, ih h.2.2⟩
          | _ => exact List.forall_mem_cons.mpr ⟨rfl, ih h.2.2⟩

section Relabel
variable {f : Text → Text}

theorem reference_relabel (f : Text → Text) (ns : Namespaces) (iri : Text) :
    (reference ns iri).isName = false ∧ reference (ns.relabel f) iri = reference ns iri ∨
      ∃ entry ∈ ns.entries, ∃ name, reference ns iri = ofName entry.1 name ∧
        reference (ns.relabel f) iri = ofName (f entry.1) name := by
  unfold reference
  rw [Namespaces.entryFor?_relabel]
  cases found : ns.entryFor? iri with
  | none => exact .inl ⟨rfl, rfl⟩
  | some entry =>
      exact .inr ⟨entry, (Namespaces.canShorten_of_entryFor? found).1, _, rfl, rfl⟩

/-- Under other labels a chunk is the same, or it is a name under the other label. -/
theorem under_relabel (f : Text → Text) (ns : Namespaces) (plain : c.isName = false) :
    (c.under ns).isName = false ∧ c.under (ns.relabel f) = c.under ns ∨
      ∃ entry ∈ ns.entries, ∃ name, c.under ns = ofName entry.1 name ∧
        c.under (ns.relabel f) = ofName (f entry.1) name := by
  cases c with
  | gap => exact .inl ⟨rfl, rfl⟩
  | token word l shuns =>
      cases l with
      | iri value => exact reference_relabel f ns value
      | _ => exact .inl ⟨plain, rfl⟩

/-- Where the labels of the names that are kept do not change, the chunks with the names under other
labels than the empty one replaced do not either. -/
theorem renameAll_relabel (h : ns.Relabels f) (plain : ∀ c ∈ cs, c.isName = false)
    (kept : ∀ label name, Lexeme.prefixedName label name ∈
      lexemes (renameAll (fun _ => true) b (cs.map (under ns))) → f label = label) :
    renameAll (!·.isEmpty) b (cs.map (under (ns.relabel f))) =
      renameAll (!·.isEmpty) b (cs.map (under ns)) := by
  -- for either chunk in front: what a minus sign keeps is only known at the chunk behind it
  induction cs generalizing b with
  | nil => rfl
  | cons c cs ih =>
      obtain ⟨head, tail⟩ := List.forall_mem_cons.mp plain
      rw [List.map_cons, renameAll, isMinus_under, lexemes_cons] at kept
      have rest := @ih c.isMinus tail fun label name member =>
        kept label name (List.mem_append_right _ member)
      rw [List.map_cons, List.map_cons, renameAll, renameAll, isMinus_under, isMinus_under, rest]
      refine congrArg (· :: _) ?_
      obtain ⟨_, same⟩ | ⟨entry, member, name, here, there⟩ := under_relabel f ns head
      · rw [same]
      · rw [here, there]
        by_cases default : entry.1 = []
        · rw [default, h.empty]
        · cases b with
          | false =>
              have named := (h.label entry member default).1
              simp [ofName, rename, default, named]
          | true =>
              have same : f entry.1 = entry.1 := kept entry.1 name (by
                rw [here]
                exact List.mem_append_left _ (by simp [ofName, rename, lexeme?]))
              rw [same]

/-- Where the lexemes do not change under other labels, the labels of the names that are kept do
not. -/
theorem kept_of_lexemes (plain : ∀ c ∈ cs, c.isName = false)
    (same : lexemes (renameAll (fun _ => true) b (cs.map (under (ns.relabel f)))) =
      lexemes (renameAll (fun _ => true) b (cs.map (under ns)))) :
    ∀ label name, Lexeme.prefixedName label name ∈
      lexemes (renameAll (fun _ => true) b (cs.map (under ns))) → f label = label := by
  induction cs generalizing b with
  | nil => exact fun _ _ member => absurd member List.not_mem_nil
  | cons c cs ih =>
      obtain ⟨head, tail⟩ := List.forall_mem_cons.mp plain
      simp only [List.map_cons, renameAll, isMinus_under, lexemes_cons] at same ⊢
      intro label name member
      obtain ⟨noName, alike⟩ | ⟨entry, _, _, here, there⟩ := under_relabel f ns head
      · rw [alike] at same
        rw [rename_of_isName noName] at member
        rcases List.mem_append.mp member with first | later
        · have isName := isName_of_lexeme? (Option.mem_toList.mp first)
          rw [noName] at isName
          cases isName
        · exact ih tail (List.append_cancel_left same) label name later
      · rw [here, there] at same
        rw [here] at member
        cases b with
        | false =>
            rcases List.mem_append.mp member with first | later
            · cases List.mem_singleton.mp first
            · exact ih tail (List.append_cancel_left same) label name later
        | true =>
            -- the names are kept under both labels, and they are the same lexeme
            obtain ⟨first, rest⟩ := List.cons.inj same
            rcases List.mem_append.mp member with kept | later
            · cases List.mem_singleton.mp kept
              exact (Lexeme.prefixedName.inj first).1
            · exact ih tail rest label name later

end Relabel
end Chunk

namespace Normal

variable {ns : Namespaces} {done : List (Text × Text)}

/-- The passes of the labels that are not empty come first, and then that of the empty one. -/
theorem exists_named (hns : ns.Plain) : ∃ done, orderedEntries ns = done ++ ns.defaults ∧
    (∀ e ∈ done, e.1 ≠ []) ∧ ∀ e ∈ ns.entries, e.1 ≠ [] → e ∈ done := by
  have perm : ((orderedEntries ns).filter (·.1.isEmpty)).Perm ns.defaults :=
    (List.mergeSort_perm _ _).filter _
  have others : ∀ {es : List (Text × Text)}, (∀ e ∈ es, e.1 ≠ []) →
      es.filter (·.1.isEmpty) = [] := fun named =>
    List.filter_eq_nil_iff.mpr fun e inside => by simpa using named e inside
  by_cases default : ∃ entry ∈ ns.entries, entry.1 = []
  · obtain ⟨entry, member, empty⟩ := default
    obtain ⟨done, todo, split⟩ := List.append_of_mem (mem_orderedEntries.mpr member)
    obtain ⟨before, behind⟩ := other_labels hns split
    -- the passes go from longer labels to shorter ones, so no pass is behind that of the empty one
    rw [empty] at before behind
    obtain rfl : todo = [] := List.eq_nil_iff_forall_not_mem.mpr fun e inside =>
      (behind e inside).1 (List.length_eq_zero_iff.mp (Nat.le_zero.mp (behind e inside).2))
    have named : ∀ e ∈ done, e.1 ≠ [] := fun e inside => (before e inside).1
    have last : ns.defaults = [entry] := by
      have only : [entry].filter (·.1.isEmpty) = [entry] := by simp [empty]
      rw [split, List.filter_append, others named, only] at perm
      exact (List.singleton_perm.mp perm).symm
    refine ⟨done, by rw [split, last], named, fun e inside other => ?_⟩
    rw [← mem_orderedEntries, split] at inside
    rcases List.mem_append.mp inside with inside | same
    · exact inside
    · rw [List.mem_singleton.mp same] at other
      exact absurd empty other
  · have named : ∀ e ∈ orderedEntries ns, e.1 ≠ [] := fun e inside empty =>
      default ⟨e, mem_orderedEntries.mp inside, empty⟩
    rw [others named] at perm
    refine ⟨orderedEntries ns, ?_, named, fun e inside _ => mem_orderedEntries.mpr inside⟩
    rw [List.nil_perm.mp perm, List.append_nil]

/-- What the passes of the labels that are not empty leave of the declarations. -/
def defaultDeclarations (ns : Namespaces) : List Declaration :=
  (ns.defaults.map fun entry => .namespace entry.1 entry.2) ++ (ns.base.map .base).toList

/-- The labels of such passes are the ones that are not empty. -/
theorem labels_named (named : ∀ e ∈ done, e.1 ≠ [])
    (all : ∀ e ∈ ns.entries, e.1 ≠ [] → e ∈ done) :
    labels done [] = false ∧ ∀ e ∈ ns.entries, labels done e.1 = !e.1.isEmpty := by
  have empty : labels done [] = false := Bool.eq_false_iff.mpr fun found => by
    obtain ⟨e, inside, same⟩ := List.any_eq_true.mp found
    exact named e inside (beq_iff_eq.mp same).symm
  refine ⟨empty, fun e member => ?_⟩
  by_cases default : e.1 = []
  · rw [default, empty]
    rfl
  · rw [List.isEmpty_eq_false_iff.mpr default]
    exact List.any_eq_true.mpr ⟨e, all e member default, beq_self_eq_true _⟩

theorem declarationsLeft_named (named : ∀ e ∈ done, e.1 ≠ [])
    (all : ∀ e ∈ ns.entries, e.1 ≠ [] → e ∈ done) :
    declarationsLeft ns done = defaultDeclarations ns := by
  obtain ⟨empty, others⟩ := labels_named named all
  have kept : ∀ e ∈ ns.entries, (!labels done e.1) = e.1.isEmpty := fun e member => by
    rw [others e member, Bool.not_not]
  rw [declarationsLeft, Namespaces.declarations, List.filter_append, defaultDeclarations,
    List.filter_map]
  refine congrArg₂ (· ++ ·) (congrArg _ (List.filter_congr kept)) ?_
  cases ns.base with
  | none => rfl
  | some base =>
      show [Declaration.base base].filter _ = _
      rw [List.filter_singleton, Declaration.owner, empty]
      rfl

theorem defaultDeclarations_relabel {f : Text → Text} (h : ns.Relabels f) :
    defaultDeclarations (ns.relabel f) = defaultDeclarations ns := by
  rw [defaultDeclarations, defaultDeclarations, Namespaces.defaults_relabel h]
  rfl

end Normal

namespace QueryUnit

/-- The same query with its namespaces under other labels. -/
def relabel (f : Text → Text) (unit : QueryUnit) : QueryUnit :=
  { unit with namespaces := unit.namespaces.relabel f }

/-- The labels of the names that the normalized text of a query keeps: those that a minus sign
stands right in front of. -/
def keptLabels (unit : QueryUnit) : List Text := (normalLexemes unit.write).filterMap label?

variable {s : Text} {unit : QueryUnit} {cs : List Chunk} {f : Text → Text}

theorem Printable.relabel (h : unit.Printable) (relabels : unit.namespaces.Relabels f) :
    (unit.relabel f).Printable where
  namespaces := h.namespaces.relabel relabels
  query := h.query

/-- The normalized text is that of a text without names but under the empty label and behind minus
signs, from which the default namespace and the base are still to be taken. -/
theorem normalText_eq (h : unit.Printable) (laid : Laid unit.namespaces cs)
    (written : unit.body = texts cs) :
    unit.normalText = Text.collapseLines (passes unit.namespaces unit.namespaces.defaults
      (Declaration.lines (defaultDeclarations unit.namespaces) ++
        texts (renameAll (!·.isEmpty) false cs))) := by
  obtain ⟨done, split, named, all⟩ := exists_named h.namespaces
  have members : ∀ e ∈ done, e ∈ unit.namespaces.entries := fun e inside =>
    mem_orderedEntries.mp (split ▸ List.mem_append_left _ inside)
  have names : renameAll (labels done) false cs = renameAll (!·.isEmpty) false cs :=
    renameAll_congr laid (labels_named named all).2
  have passed := passes_named h split named
  rw [declarationsLeft_named named all, written, renames_texts h.namespaces members laid, names]
    at passed
  rw [normalText, withoutPrefixes, split, List.foldl_append, ← passed]
  rfl

/-- Where no description loses the end of its line, the passes take no more than declarations. -/
theorem withoutPrefixes_write (h : unit.Printable) (plain : ¬ unit.DescribesBase)
    (laid : Laid unit.namespaces cs) (written : unit.body = texts cs) :
    withoutPrefixes unit.namespaces unit.write =
      Declaration.lines (remaining unit.namespaces) ++
        texts (renameAll (fun _ => true) false cs) := by
  have members : ∀ e ∈ orderedEntries unit.namespaces, e ∈ unit.namespaces.entries :=
    fun _ => mem_orderedEntries.mp
  have passed := passes_write h members fun _ _ _ split =>
    spares_body h split fun both => plain both.2
  rw [declarationsLeft, filter_declarations, written, renames_texts h.namespaces members laid]
    at passed
  refine passed.trans (congrArg (_ ++ texts ·) (renameAll_congr laid fun e member => ?_))
  exact List.any_eq_true.mpr ⟨e, mem_orderedEntries.mpr member, beq_self_eq_true _⟩

/-- Under other labels no other description loses the end of its line. -/
theorem describesBase_relabel (relabels : unit.namespaces.Relabels f)
    (h : (unit.relabel f).DescribesBase) : unit.DescribesBase := by
  obtain ⟨removes, everything, front, t, last, base, form, found, isBase, bracketed, letters⟩ := h
  rw [relabel, Namespaces.removesBase_relabel relabels] at removes
  rw [relabel, Namespaces.entryFor?_relabel] at bracketed
  refine ⟨removes, everything, front, t, last, base, form, found, isBase,
    Option.map_eq_none_iff.mp bracketed, ?_⟩
  obtain ⟨node, span⟩ := t
  cases node with
  | iri value =>
      obtain ⟨entry, same, empty, ends⟩ := letters
      rw [relabel, Namespaces.entryFor?_relabel] at same
      obtain ⟨entry, found, rfl⟩ := Option.map_eq_some_iff.mp same
      have member := (Namespaces.canShorten_of_entryFor? found).1
      exact ⟨entry, found, (relabels.eq_nil_iff member).mp empty, ends⟩
  | var name => exact letters
  | literal l => exact letters
  | blank label => exact letters

/-- No declaration keeps a name. -/
theorem mem_lexemes_lines {label name : Text} (ds : List Declaration) :
    .prefixedName label name ∈ lexemes (renameAll (fun _ => true) false
      (ds.flatMap Declaration.chunks ++ cs)) ↔
        .prefixedName label name ∈ lexemes (renameAll (fun _ => true) false cs) := by
  induction ds with
  | nil => exact Iff.rfl
  | cons d ds ih =>
      refine Iff.trans ?_ ih
      cases d <;> simp [Declaration.chunks, renameAll, rename, isMinus, lexemes_cons, lexeme?,
        Chunk.placeholder]

theorem mem_keptLabels (h : unit.Printable) (laid : Laid unit.namespaces cs)
    (written : unit.body = texts cs) (label : Text) : label ∈ unit.keptLabels ↔
      ∃ name, .prefixedName label name ∈ lexemes (renameAll (fun _ => true) false cs) := by
  have tokens := (normalLexemes_write h.namespaces laid (written ▸ write_eq_body unit)).2
  rw [keptLabels, mem_filterMap_label?]
  exact exists_congr fun name => by rw [tokens, mem_lexemes_lines]

/-- Under other labels, the normalized text and its length are the same where those of the names
that are kept do not change. Where they do the text is another one, but possibly for a description
that loses the end of its line. -/
theorem normalText_relabel (h : parse s = .ok unit) (spellable : unit.IsSpellable)
    (relabels : unit.namespaces.Relabels f) :
    ((∀ label ∈ unit.keptLabels, f label = label) →
        (unit.relabel f).normalText = unit.normalText ∧
          (unit.relabel f).normalLength = unit.normalLength) ∧
      (¬ unit.DescribesBase → (unit.relabel f).normalText = unit.normalText →
        ∀ label ∈ unit.keptLabels, f label = label) := by
  have printable := printable_of_parse h spellable
  have printable' := printable.relabel relabels
  obtain ⟨cs, all⟩ := exists_template printable.query
  have plain := isName_of_laid (all {} ⟨Namespaces.legal_empty, fun _ => nofun⟩).2
  obtain ⟨written, laid⟩ := all unit.namespaces printable.namespaces
  obtain ⟨written', laid'⟩ := all (unit.namespaces.relabel f) printable'.namespaces
  have keeps := mem_keptLabels printable laid written.symm
  constructor
  · intro fixed
    have names := renameAll_relabel relabels plain fun label name member =>
      fixed label ((keeps label).mpr ⟨name, member⟩)
    have same : (unit.relabel f).normalText = unit.normalText := by
      rw [normalText_eq printable laid written.symm, normalText_eq printable' laid' written'.symm,
        relabel, names, defaultDeclarations_relabel relabels, Namespaces.defaults_relabel relabels]
      rfl
    exact ⟨same, congrArg Text.codePoints same⟩
  · intro plainLine same label kept
    obtain ⟨name, member⟩ := (keeps label).mp kept
    have read := (lexemes_of_passes printable.namespaces laid
      (withoutPrefixes_write printable plainLine laid written.symm)).2
    have read' := (lexemes_of_passes printable'.namespaces laid'
      (withoutPrefixes_write printable' (fun describes =>
        plainLine (describesBase_relabel relabels describes)) laid' written'.symm)).2
    rw [same, read, relabel, Namespaces.remaining_relabel relabels] at read'
    have both := (Prod.mk.inj read').1
    rw [lexemes_append, lexemes_append] at both
    exact kept_of_lexemes plain (List.append_cancel_left both).symm label name member

/-- A test with two labels, of which one is that of a name behind a minus sign. -/
def signed : Text := utf8 "PREFIX a: <u:>PREFIX b: <v:>ASK\x7b?s b:p ?o FILTER(-a:f(?o))\x7d"

/-- The query that is read from the test. -/
def signedUnit : QueryUnit where
  namespaces := ⟨[(utf8 "a", utf8 "u:"), (utf8 "b", utf8 "v:")], none⟩
  query :=
    { form := .ask
      resultVariables := [utf8 "s", utf8 "o"]
      dataset := []
      root := ⟨.group, [
        .triple ⟨⟨.var (utf8 "s"), ⟨32, 34⟩⟩, ⟨.iri (utf8 "v:p"), ⟨35, 38⟩⟩,
          ⟨.var (utf8 "o"), ⟨39, 41⟩⟩, ⟨32, 42⟩⟩,
        .filter (.unary (utf8 "-") [.call (.iri ⟨.iri (utf8 "u:f"), ⟨50, 53⟩⟩) false
          [.term ⟨.var (utf8 "o"), ⟨54, 56⟩⟩ ⟨54, 56⟩] ⟨50, 57⟩] ⟨49, 57⟩) ⟨42, 58⟩],
        [], none, ⟨31, 59⟩⟩
      groupBy := []
      having := []
      orderBy := []
      limit := none
      offset := none
      values := none
      span := ⟨0, 59⟩ }

/-- Another label in the place of one. -/
def insteadOf (old new label : Text) : Text := if label = old then new else label

/-- With another label for the plain name the normalized text stays the same, with another label for
the name behind the minus sign it does not. -/
theorem normalText_relabel_signed : ∃ unit, parse signed = .ok unit ∧
    (unit.relabel (insteadOf (utf8 "b") (utf8 "other"))).normalText = unit.normalText ∧
      (unit.relabel (insteadOf (utf8 "a") (utf8 "other"))).normalText ≠ unit.normalText := by
  have read : parse signed = .ok signedUnit := by
    set_option maxRecDepth 100000 in with_unfolding_all rfl
  have spellable : signedUnit.IsSpellable := by
    have clean : IsCleanIri (utf8 "v:p") ∧ IsCleanIri (utf8 "u:f") := by decide
    refine ⟨by decide, Query.everywhere_iff.mpr ?_⟩
    simp [signedUnit, cleanChecks, Query.Clean, Element.Clean, Node.Clean, Triple.Everywhere,
      Callee.Everywhere, GroupKind.Everywhere, tableEverywhere, clean]
  have labels : ∀ old ∈ [utf8 "a", utf8 "b"],
      signedUnit.namespaces.Relabels (insteadOf old (utf8 "other")) := by
    unfold insteadOf
    refine fun old known => ⟨?_, ?_, ?_⟩ <;> revert old
    · decide
    · unfold IsPrefixLabel
      decide +kernel
    · decide
  have plain : ∀ label ∈ signedUnit.keptLabels,
      insteadOf (utf8 "b") (utf8 "other") label = label := by
    decide +kernel
  have kept : utf8 "a" ∈ signedUnit.keptLabels := by
    decide +kernel
  refine ⟨signedUnit, read, ?_, fun same => ?_⟩
  · exact ((normalText_relabel read spellable (labels _ (by decide))).1 plain).1
  · have fixed := (normalText_relabel read spellable (labels _ (by decide))).2
      (fun describes => absurd describes.isDescribe (by decide)) same _ kept
    exact absurd fixed (by decide)

end QueryUnit

end SparqlMetrics
