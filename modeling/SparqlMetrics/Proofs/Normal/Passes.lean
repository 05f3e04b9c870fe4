import Mathlib.Data.List.Nodup
import SparqlMetrics.Proofs.Normal.Lines
import SparqlMetrics.Proofs.Rereading

/-!
# Passes over a written query

Normalization makes a pass for each label. A pass removes the declaration of the label, with that of
the default namespace the base's too, and replaces the names under the label. Each pass leaves lines
of declarations with a text in chunks behind them, so the passes are taken one after the other: what
is left is no declaration but that of a base, and no name (`Normal.withoutPrefixes_lines`).
-/
namespace SparqlMetrics

open SparqlMetrics.Normal Lexeme Chunk

namespace Declaration

/-- The label whose pass removes a declaration. -/
def owner : Declaration → Text
  | .namespace label _ => label
  | .base _ => []

def chunks : Declaration → List Chunk
  | .namespace label iri => [
      .token (utf8 "PREFIX") (.keyword .PREFIX (utf8 "PREFIX")) Byte.continuesName,
      .gap Byte.space, .token (label ++ [Byte.colon]) (.prefixedName label []) Byte.continuesName,
      .gap Byte.space, .token (Text.angled iri) (.iri iri) fun _ => false, .gap Byte.newline]
  | .base iri => [
      .token (utf8 "BASE") (.keyword .BASE (utf8 "BASE")) Byte.continuesName,
      .gap Byte.space, .token (Text.angled iri) (.iri iri) fun _ => false, .gap Byte.newline]

variable {ns : Namespaces} {d : Declaration} {ds : List Declaration} {cs : List Chunk}

theorem texts_chunks (d : Declaration) : texts d.chunks = d.text := by
  have whole := text_eq_content d []
  rw [List.append_nil] at whole
  rw [whole]
  have word : utf8 "PREFIX " = utf8 "PREFIX" ++ [Byte.space] := by decide
  cases d <;> simp [chunks, texts, Chunk.text, content, opening, iri, word]

theorem texts_lines (ds : List Declaration) : texts (ds.flatMap chunks) = lines ds := by
  induction ds with
  | nil => rfl
  | cons d ds ih => rw [List.flatMap_cons, texts_append, texts_chunks, ih]; rfl

theorem mem_declarations : d ∈ ns.declarations ↔
    (∃ entry ∈ ns.entries, d = .namespace entry.1 entry.2) ∨
      ∃ base, ns.base = some base ∧ d = .base base := by
  simp [Namespaces.declarations, eq_comm]

theorem isSpelled_namespace (h : ns.Plain) {entry : Text × Text} (member : entry ∈ ns.entries) :
    (Declaration.namespace entry.1 entry.2).IsSpelled := by
  refine ⟨?_, h.clean entry member⟩
  rintro _ _ ⟨⟩
  exact h.label entry member (h.noColon entry member)

theorem isSpelled_base (h : ns.Plain) {base : Text} (found : ns.base = some base) :
    (Declaration.base base).IsSpelled := ⟨nofun, (h.base base found).2⟩

theorem isSpelled_of_mem (h : ns.Plain) (member : d ∈ ns.declarations) : d.IsSpelled := by
  rcases mem_declarations.mp member with ⟨entry, found, rfl⟩ | ⟨base, found, rfl⟩
  · exact isSpelled_namespace h found
  · exact isSpelled_base h found

theorem laid_chunks (h : ns.Plain) (member : d ∈ ns.declarations) (laid : Laid ns cs) :
    Laid ns (d.chunks ++ cs) := by
  have spelled := isSpelled_of_mem h member
  have white : Byte.space.isSpace = true ∧ Byte.newline.isSpace = true := by decide
  have spaced : ∀ s : Text, Breaks (Byte.space :: s) := fun s => stopsAt_cons (by decide)
  have behind : ∀ {iri : Text}, IsCleanIri iri → Laid ns (.gap Byte.space ::
      .token (Text.angled iri) (.iri iri) (fun _ => false) :: .gap Byte.newline :: cs) :=
    fun clean => ⟨white.1, writtenAs_iri clean, fun _ _ => rfl, white.2, laid⟩
  rcases mem_declarations.mp member with ⟨entry, found, rfl⟩ | ⟨base, found, rfl⟩
  · have plain : isPlainLocalName [] = true := by decide
    have name := writtenAs_prefixedName (spelled.1 _ _ rfl) found plain
    exact ⟨writtenAs_keyword .PREFIX, spaced _, white.1, name, spaced _, behind spelled.2⟩
  · exact ⟨writtenAs_keyword .BASE, spaced _, behind spelled.2⟩

theorem laid_lines (h : ns.Plain) (known : ∀ d ∈ ds, d ∈ ns.declarations) (laid : Laid ns cs) :
    Laid ns (ds.flatMap chunks ++ cs) := by
  induction ds with
  | nil => exact laid
  | cons d ds ih =>
      rw [List.flatMap_cons, List.append_assoc]
      exact laid_chunks h (known d List.mem_cons_self)
        (ih fun c member => known c (List.mem_cons_of_mem _ member))

/-- Declarations of other labels are kept when the names under a label are replaced. -/
theorem renameAll_lines {label : Text} (others : ∀ d ∈ ds, d.owner ≠ label) :
    renameAll (· == label) false (ds.flatMap chunks ++ cs) =
      ds.flatMap chunks ++ renameAll (· == label) false cs := by
  induction ds with
  | nil => rfl
  | cons d ds ih =>
      have other := others d List.mem_cons_self
      rw [List.flatMap_cons, List.append_assoc, List.append_assoc,
        ← ih fun c member => others c (List.mem_cons_of_mem _ member)]
      cases d with
      | «namespace» own iri =>
          have kept : (own == label) = false := beq_false_of_ne other
          simp [chunks, renameAll, rename, kept, isMinus]
      | base iri => rfl

end Declaration

namespace Normal

/-- What goes with a label from a text behind the declarations: with the empty label the lines that
end like the base's declaration. -/
def withoutBase (ns : Namespaces) (label s : Text) : Text :=
  match ns.base with
  | some base => if label.isEmpty then removeLine s (Declaration.base base).content else s
  | none => s

open Declaration

section Passes
variable {ns : Namespaces} {entry : Text × Text} {done entries : List (Text × Text)}
  {ds : List Declaration} {cs : List Chunk}

/-- The text of a declaration as it is looked for. -/
theorem content_namespace (label iri : Text) : (Declaration.namespace label iri).content =
    utf8 "PREFIX " ++ label ++ utf8 ": " ++ Text.angled iri := by
  have colon : utf8 ": " = [Byte.colon, Byte.space] := by decide
  simp [content, opening, Declaration.iri, colon]

theorem content_base (iri : Text) :
    (Declaration.base iri).content = utf8 "BASE " ++ Text.angled iri := by
  have word : utf8 "BASE " = utf8 "BASE" ++ [Byte.space] := by decide
  simp [content, opening, Declaration.iri, word]

/-- What goes with a label: the declaration of its entry, and with the empty label the base's too. -/
theorem owner_eq_iff (h : ns.Plain) (member : entry ∈ ns.entries) {d : Declaration}
    (known : d ∈ ns.declarations) : d.owner = entry.1 ↔
      d = .namespace entry.1 entry.2 ∨ entry.1 = [] ∧ some d = ns.base.map .base := by
  rcases mem_declarations.mp known with ⟨other, found, rfl⟩ | ⟨base, found, rfl⟩
  · have same : other.1 = entry.1 → other = entry := List.inj_on_of_nodup_map h.nodup found member
    have noBase : ∀ o : Option Text, some (Declaration.namespace other.1 other.2) ≠ o.map .base := by
      rintro (_ | base) <;> simp
    refine ⟨fun label => .inl (by rw [same label]), fun goes => ?_⟩
    rcases goes with goes | ⟨_, absurdity⟩
    · exact (Declaration.namespace.inj goes).1
    · exact absurd absurdity (noBase _)
  · simp [owner, found, eq_comm]

/-- The declarations of a label go, and behind them what ends like that of the base. -/
theorem removeDeclarations_append (h : ns.Plain) (member : entry ∈ ns.entries)
    (known : ∀ d ∈ ds, d ∈ ns.declarations) {s : Text}
    (stays : removeLine s (Declaration.namespace entry.1 entry.2).content = s) :
    removeDeclarations ns.base entry (lines ds ++ s) =
      lines (ds.filter (·.owner ≠ entry.1)) ++ withoutBase ns entry.1 s := by
  have removed : ∀ {d : Declaration} {ds : List Declaration}, d.IsSpelled →
      (∀ c ∈ ds, c ∈ ns.declarations) →
      removeLine (lines ds ++ s) d.content = lines (ds.filter (· ≠ d)) ++ removeLine s d.content :=
    fun spelled known => removeLine_lines (fun c found => isSpelled_of_mem h (known c found)) spelled s
  -- without a base to remove, only the declaration of the entry goes
  have alone : (∀ d ∈ ds, ¬ (entry.1 = [] ∧ some d = ns.base.map .base)) →
      ds.filter (· ≠ .namespace entry.1 entry.2) = ds.filter (·.owner ≠ entry.1) := fun noBase =>
    List.filter_congr fun d inside => decide_eq_decide.mpr (not_congr
      ((or_iff_left (noBase d inside)).symm.trans (owner_eq_iff h member (known d inside)).symm))
  unfold removeDeclarations withoutBase
  rw [← content_namespace, removed (isSpelled_namespace h member) known, stays]
  cases found : ns.base with
  | none =>
      rw [alone fun d _ both => by simp [found] at both]
  | some base =>
      simp only
      split
      · next default =>
        have empty : entry.1 = [] := by simpa using default
        rw [← content_base, removed (isSpelled_base h found) fun c inside =>
          known c (List.mem_of_mem_filter inside), List.filter_filter]
        refine congrArg (lines · ++ removeLine s _) (List.filter_congr fun d inside => ?_)
        refine (Bool.decide_and _ _).symm.trans (decide_eq_decide.mpr ?_)
        rw [ne_eq, ne_eq, ne_eq, owner_eq_iff h member (known d inside), found]
        simp [empty, and_comm]
      · next named =>
        have nonempty : entry.1 ≠ [] := by simpa using named
        rw [alone fun d _ both => nonempty both.1]

theorem withoutBase_of_ne_nil {label : Text} (named : label ≠ []) (s : Text) :
    withoutBase ns label s = s := by
  have kept : label.isEmpty = false := by simpa using named
  unfold withoutBase
  cases ns.base <;> simp [kept]

theorem withoutBase_of_none (noBase : ns.base = none) (label s : Text) : withoutBase ns label s = s := by
  simp only [withoutBase, noBase]

theorem withoutBase_nil {base : Text} (found : ns.base = some base) (s : Text) :
    withoutBase ns [] s = removeLine s (Declaration.base base).content := by
  simp only [withoutBase, found, List.isEmpty_nil, if_true]

/-- Where IRIs end no lines but those of clauses, the base's declaration ends like none of them. -/
theorem withoutBase_texts (h : ns.Plain) (laid : Laid ns cs) (ended : Ended cs) (label : Text) :
    withoutBase ns label (texts cs) = texts cs := by
  unfold withoutBase
  cases found : ns.base with
  | none => rfl
  | some base => simp only [removeLine_texts laid ended (isSpelled_base h found), ite_self]

/-- To replace the names under a label leaves the declarations of other labels. -/
theorem replaceNames_lines (h : ns.Plain) (member : entry ∈ ns.entries)
    (known : ∀ d ∈ ds, d ∈ ns.declarations) (others : ∀ d ∈ ds, d.owner ≠ entry.1)
    (laid : Laid ns cs) :
    replaceNames entry.1 (lines ds ++ texts cs) =
      lines ds ++ texts (renameAll (· == entry.1) false cs) := by
  have isLabel := h.label entry member (h.noColon entry member)
  rw [← texts_lines, ← texts_append, replaceNames,
    replaceFrom_texts (laid_lines h known laid) isLabel (follows_of_goesOn rfl _),
    renameAll_lines others, texts_append]

def labels (entries : List (Text × Text)) (label : Text) : Bool :=
  entries.any fun entry => label == entry.1

def passes (ns : Namespaces) (entries : List (Text × Text)) (s : Text) : Text :=
  entries.foldl (fun acc entry => replaceNames entry.1 (removeDeclarations ns.base entry acc)) s

/-- What passes do that remove nothing. -/
def renames (entries : List (Text × Text)) (s : Text) : Text :=
  entries.foldl (fun acc entry => replaceNames entry.1 acc) s

/-- The declarations that some passes leave: those of other labels. -/
def declarationsLeft (ns : Namespaces) (entries : List (Text × Text)) : List Declaration :=
  ns.declarations.filter fun d => !labels entries d.owner

theorem labels_concat (done : List (Text × Text)) (entry : Text × Text) (label : Text) :
    labels (done ++ [entry]) label = (labels done label || label == entry.1) := by
  simp [labels]

theorem declarationsLeft_concat : declarationsLeft ns (done ++ [entry]) =
    (declarationsLeft ns done).filter (·.owner ≠ entry.1) := by
  rw [declarationsLeft, declarationsLeft, List.filter_filter]
  refine List.filter_congr fun d _ => Bool.eq_iff_iff.mpr ?_
  simp [labels_concat, and_comm]

theorem mem_declarations_of_left {d : Declaration} (h : d ∈ declarationsLeft ns done) :
    d ∈ ns.declarations := List.mem_of_mem_filter h

/-- To replace the names under some labels in a text in chunks is to replace chunks. -/
theorem renames_texts (hns : ns.Plain) (members : ∀ e ∈ entries, e ∈ ns.entries) (laid : Laid ns cs) :
    renames entries (texts cs) = texts (renameAll (labels entries) false cs) := by
  induction entries generalizing cs with
  | nil => exact congrArg texts (renameAll_none false cs).symm
  | cons e entries ih =>
      have member := members e List.mem_cons_self
      have first : replaceNames e.1 (texts cs) = texts (renameAll (· == e.1) false cs) :=
        replaceFrom_texts laid (hns.label e member (hns.noColon e member)) (follows_of_goesOn rfl _)
      rw [renames, List.foldl_cons, first]
      refine (ih (fun e inside => members e (List.mem_cons_of_mem _ inside))
        (laid_renameAll laid)).trans (congrArg texts ?_)
      rw [renameAll_renameAll]
      rfl

/-- Whether a pass behind some others takes nothing from the text behind the declarations. -/
structure Spares (ns : Namespaces) (done : List (Text × Text)) (entry : Text × Text) (s : Text) :
    Prop where
  namespaceLine : removeLine (renames done s) (Declaration.namespace entry.1 entry.2).content =
    renames done s
  baseLine : withoutBase ns entry.1 (renames done s) = renames done s

/-- Behind passes that take nothing from the text there are the declarations of the other labels, and
the text with its names replaced. -/
theorem passes_of_spares (hns : ns.Plain) (members : ∀ e ∈ done, e ∈ ns.entries) (laid : Laid ns cs)
    (spares : ∀ before e behind, done = before ++ e :: behind → Spares ns before e (texts cs)) :
    passes ns done (Declaration.lines ns.declarations ++ texts cs) =
      Declaration.lines (declarationsLeft ns done) ++ renames done (texts cs) := by
  induction done using List.reverseRecOn with
  | nil =>
      have all : declarationsLeft ns [] = ns.declarations := by simp [declarationsLeft, labels]
      rw [all]
      rfl
  | append_singleton done e ih =>
      have inside : ∀ e ∈ done, e ∈ ns.entries := fun e inside =>
        members e (List.mem_append_left _ inside)
      have before := ih inside fun before e' behind same => spares before e' (behind ++ [e]) (by
        rw [same, List.append_assoc, List.cons_append])
      have member := members e (List.mem_append_right _ (List.mem_singleton_self e))
      have spared := spares done e [] rfl
      rw [passes] at before ⊢
      rw [List.foldl_concat, before, removeDeclarations_append hns member
        (fun d => mem_declarations_of_left) spared.namespaceLine, spared.baseLine,
        renames_texts hns inside laid, replaceNames_lines hns member
        (fun d kept => mem_declarations_of_left (List.mem_of_mem_filter kept)) ?_
        (laid_renameAll laid), declarationsLeft_concat, renames_texts hns members laid,
        renameAll_renameAll]
      · refine congrArg (_ ++ texts ·) (congrArg (renameAll · false cs) (funext fun label => ?_))
        exact (labels_concat done e label).symm
      · intro d kept
        simpa using (List.mem_filter.mp kept).2

/-- Where IRIs end no lines but those of clauses, every pass spares the text. -/
theorem spares_of_ended (hns : ns.Plain) (members : ∀ e ∈ done, e ∈ ns.entries)
    (member : entry ∈ ns.entries) (laid : Laid ns cs) (ended : Ended cs) :
    Spares ns done entry (texts cs) where
  namespaceLine := by
    rw [renames_texts hns members laid, removeLine_texts (laid_renameAll laid)
      (ended_renameAll laid ended) (isSpelled_namespace hns member)]
  baseLine := by
    rw [renames_texts hns members laid,
      withoutBase_texts hns (laid_renameAll laid) (ended_renameAll laid ended)]

theorem mem_orderedEntries : entry ∈ orderedEntries ns ↔ entry ∈ ns.entries :=
  (List.mergeSort_perm _ _).mem_iff

/-- Whether the declaration of the base is removed: with that of the default namespace. -/
def removesBase (ns : Namespaces) : Bool :=
  ns.base.isSome && ns.entries.any fun entry => entry.1.isEmpty

def remaining (ns : Namespaces) : List Declaration :=
  if removesBase ns then [] else (ns.base.map .base).toList

theorem filter_declarations (ns : Namespaces) :
    ns.declarations.filter (fun d => !labels (orderedEntries ns) d.owner) = remaining ns := by
  have same : labels (orderedEntries ns) = labels ns.entries := by
    funext label
    exact (List.mergeSort_perm _ _).any_eq
  have entries : ((ns.entries.map fun entry => Declaration.namespace entry.1 entry.2).filter
      fun d => !labels ns.entries d.owner) = [] := by
    refine List.filter_eq_nil_iff.mpr fun d member => ?_
    obtain ⟨entry, found, rfl⟩ := List.mem_map.mp member
    simpa [labels, owner] using ⟨entry.2, found⟩
  have empty : labels ns.entries [] = ns.entries.any fun entry => entry.1.isEmpty := by
    refine congrArg ns.entries.any (funext fun entry => ?_)
    cases entry.1 <;> rfl
  rw [same, Namespaces.declarations, List.filter_append, entries, List.nil_append, remaining,
    removesBase, ← empty]
  cases ns.base with
  | none => rfl
  | some base =>
      show [Declaration.base base].filter _ = _
      rw [List.filter_singleton, owner]
      cases labels ns.entries [] <;> rfl

/-- All passes over the lines of a prologue and a text in chunks. -/
theorem withoutPrefixes_lines (h : ns.Plain) (laid : Laid ns cs) (ended : Ended cs) :
    withoutPrefixes ns (lines ns.declarations ++ texts cs) =
      lines (remaining ns) ++ texts (renameAll (fun _ => true) false cs) := by
  have members : ∀ e ∈ orderedEntries ns, e ∈ ns.entries := fun e => mem_orderedEntries.mp
  have all := passes_of_spares h members laid fun before e behind split =>
    spares_of_ended h (fun e inside => members e (split ▸ List.mem_append_left _ inside))
      (members e (by simp [split])) laid ended
  rw [← filter_declarations]
  refine all.trans (congrArg (_ ++ ·) ?_)
  rw [renames_texts h members laid]
  refine congrArg texts (renameAll_congr laid fun entry member => ?_)
  exact List.any_eq_true.mpr ⟨entry, mem_orderedEntries.mpr member, beq_self_eq_true _⟩

end Passes

end Normal

end SparqlMetrics
