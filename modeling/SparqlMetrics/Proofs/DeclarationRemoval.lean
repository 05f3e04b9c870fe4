import SparqlMetrics.Proofs.Normal.Descriptions
import SparqlMetrics.Proofs.Normalization

/-!
# What normalization removes

Normalization makes a pass for each declared label, longer labels first. A pass removes every text
that reads like the declaration of its label and ends a line, and the pass of the empty label does so
for the declaration of the base as well. In between names are replaced, so the lines are looked for in
a text that is partly rewritten. Each pass takes the declarations of its label from the prologue and
nothing from the query behind it, but for one case: the last pass cuts the line of a description that
ends with the base behind a resource that ends with the letters of the declaration's word.
Main statement: `QueryUnit.removes_only_declarations`.
-/
namespace SparqlMetrics

open SparqlMetrics.Normal Lexeme Chunk

namespace Normal

/-- What is left in a pass behind some others when it has removed lines and not yet replaced names. -/
def afterRemoval (ns : Namespaces) (done : List (Text × Text)) (entry : Text × Text) (s : Text) :
    Text :=
  removeDeclarations ns.base entry (passes ns done s)

/-- A line in front of a text that a removal leaves is left if and only if it does not end like the
line that is removed. -/
theorem removeLine_line_iff {x s d : Text} (free : Byte.newline ∉ x) (freeLine : Byte.newline ∉ d)
    (stays : removeLine s d = s) :
    removeLine (x ++ Byte.newline :: s) d = x ++ Byte.newline :: s ↔ ¬ d <:+ x := by
  refine ⟨?_, fun other => by rw [removeLine_other free freeLine other, stays]⟩
  rintro same ⟨front, rfl⟩
  rw [List.append_assoc, removeLine_suffix (fun member => free (List.mem_append_left _ member))
    freeLine, stays] at same
  have lengths := congrArg List.length same
  simp only [List.length_append, List.length_cons] at lengths
  omega

section Order
variable {ns : Namespaces} {entry : Text × Text} {done todo : List (Text × Text)}

/-- The passes in front of one are of other labels that are no shorter, those behind it of other
labels that are no longer. -/
theorem other_labels (hns : ns.Plain) (split : orderedEntries ns = done ++ entry :: todo) :
    (∀ e ∈ done, e.1 ≠ entry.1 ∧ entry.1.length ≤ e.1.length) ∧
      ∀ e ∈ todo, e.1 ≠ entry.1 ∧ e.1.length ≤ entry.1.length := by
  have perm : (orderedEntries ns).Perm ns.entries := List.mergeSort_perm _ _
  have nodup : ((orderedEntries ns).map (·.1)).Nodup := (perm.map _).nodup_iff.mpr hns.nodup
  have sorted : (orderedEntries ns).Pairwise fun a b => b.1.length ≤ a.1.length := by
    refine (List.pairwise_mergeSort (fun a b c => ?_) (fun a b => ?_) ns.entries).imp
      of_decide_eq_true
    · simp only [decide_eq_true_eq]
      exact fun first second => second.trans first
    · simpa using Nat.le_total _ _
  have both := (List.pairwise_map.mp nodup).and sorted
  rw [split, List.pairwise_append, List.pairwise_cons] at both
  obtain ⟨_, ⟨behind, _⟩, before⟩ := both
  exact ⟨fun e inside => before e inside entry List.mem_cons_self, fun e inside =>
    ⟨(behind e inside).1.symm, (behind e inside).2⟩⟩

/-- The pass of the empty label is the last one. -/
theorem labels_of_empty (hns : ns.Plain) (split : orderedEntries ns = done ++ entry :: todo)
    (empty : entry.1 = []) :
    labels done [] = false ∧ ∀ e ∈ ns.entries, e.1 ≠ [] → labels done e.1 = true := by
  obtain ⟨before, behind⟩ := other_labels hns split
  rw [empty] at before behind
  constructor
  · refine Bool.eq_false_iff.mpr fun found => ?_
    obtain ⟨e, inside, same⟩ := List.any_eq_true.mp found
    exact (before e inside).1 (beq_iff_eq.mp same).symm
  · intro e member nonempty
    have somewhere := mem_orderedEntries.mpr member
    rw [split, List.mem_append, List.mem_cons] at somewhere
    rcases somewhere with inside | rfl | inside
    · exact List.any_eq_true.mpr ⟨e, inside, beq_self_eq_true _⟩
    · exact absurd empty nonempty
    · exact absurd (List.length_eq_zero_iff.mp (Nat.le_zero.mp (behind e inside).2)) nonempty

/-- No pass in front of another one is of the empty label. -/
theorem ne_nil_of_before (hns : ns.Plain) (split : orderedEntries ns = done ++ entry :: todo)
    {e : Text × Text} (inside : e ∈ done) : e.1 ≠ [] := by
  obtain ⟨other, longer⟩ := (other_labels hns split).1 e inside
  intro empty
  rw [empty] at other longer
  exact other (List.length_eq_zero_iff.mp (Nat.le_zero.mp longer)).symm

end Order

end Normal

namespace QueryUnit

/-- What a query is written as behind its declarations. -/
def body (unit : QueryUnit) : Text := (unit.query.write unit.namespaces 0).text

/-- Whether the line of a description ends like the declaration of the base when that is removed: the
last resource is the base between brackets, the one in front of it ends with the letters of the word. -/
def DescribesBase (unit : QueryUnit) : Prop :=
  removesBase unit.namespaces = true ∧ ∃ everything front t last base,
    unit.query.form = .describe everything (front ++ [t, last]) ∧ unit.namespaces.base = some base ∧
      last.node = .iri base ∧ unit.namespaces.entryFor? base = none ∧ t.EndsInBase unit.namespaces

variable {s : Text} {unit : QueryUnit} {everything : Bool} {targets : List Term}
  {entry : Text × Text} {done todo : List (Text × Text)}

theorem DescribesBase.isDescribe (h : unit.DescribesBase) : unit.query.form.isDescribe = true := by
  obtain ⟨_, _, _, _, _, _, form, _⟩ := h
  rw [form]
  rfl

theorem DescribesBase.base_ne_none (h : unit.DescribesBase) : unit.namespaces.base ≠ none := by
  obtain ⟨_, _, _, _, _, base, _, found, _⟩ := h
  rw [found]
  exact Option.some_ne_none base

theorem write_eq_body (unit : QueryUnit) :
    unit.write = Declaration.lines unit.namespaces.declarations ++ unit.body := by
  rw [write, Namespaces.write_eq_lines, body]

/-- A written description in chunks under all declarations: the line of its resources and the lines
behind it. -/
theorem exists_describing {q : Query} (printable : q.Everywhere printableChecks)
    (form : q.form = .describe everything targets) :
    ∃ (ws : List (Term × Chunk)) (rest : List Chunk), ws.map (·.1) = targets ∧ Describes {} ws ∧
      ∀ ns : Namespaces, ns.Plain → Laid ns (rest.map (under ns)) ∧ Ended (rest.map (under ns)) ∧
        (q.write ns 0).text =
          texts (descriptionLine everything ((resourcesUnder ns ws).map (·.2)) ++
            .gap Byte.newline :: rest.map (under ns)) := by
  obtain ⟨⟨⟨_, legal, _⟩, _⟩, checks, _⟩ := Query.everywhere_iff.mp printable
  rw [form] at legal checks
  obtain ⟨ws, rfl, describes⟩ := exists_describes {} checks legal.2
  obtain ⟨rest, all⟩ :=
    (laidOut_behindForm printable (laysParts_of_printable q printable) 0).exists_chunks
  refine ⟨ws, rest, rfl, describes, fun ns hns => ?_⟩
  obtain ⟨same, laid, ended⟩ := all ns hns
  have resources : (resourcesUnder ns ws).map (·.1) = ws.map (·.1) := by simp [resourcesUnder]
  refine ⟨laid, ended, ?_⟩
  rw [text_writeQuery_form, form, ← same, texts_append, texts_descriptionLine (describes.under ns),
    resources, Form.write, Passage.text_part]
  simp [line, Text.spaces, Chunk.text]

theorem exists_description (h : unit.Printable)
    (form : unit.query.form = .describe everything targets) :
    ∃ ws rest, ws.map (·.1) = targets ∧ Describes unit.namespaces ws ∧ Laid unit.namespaces rest ∧
      Ended rest ∧ unit.body =
        texts (descriptionLine everything (ws.map (·.2)) ++ .gap Byte.newline :: rest) := by
  obtain ⟨ws, rest, rfl, describes, all⟩ := exists_describing h.query form
  obtain ⟨laid, ended, written⟩ := all unit.namespaces h.namespaces
  exact ⟨resourcesUnder unit.namespaces ws, _, by simp [resourcesUnder], describes.under _, laid,
    ended, written⟩

/-- Every other written query in chunks, with IRIs at the end of no lines but those of clauses. -/
theorem exists_ended (h : unit.Printable)
    (noDescription : unit.query.form.isDescribe = false) :
    ∃ cs, unit.body = texts cs ∧ Laid unit.namespaces cs ∧ Ended cs := by
  obtain ⟨cs, same, laid, ended, _⟩ := exists_chunks h noDescription
  rw [write_eq_body] at same
  exact ⟨cs, List.append_cancel_left same, laid, ended⟩

/-- Every written query in chunks under all declarations. -/
theorem exists_template {q : Query} (printable : q.Everywhere printableChecks) :
    ∃ cs : List Chunk, ∀ ns : Namespaces, ns.Plain →
      texts (cs.map (under ns)) = (q.write ns 0).text ∧ Laid ns (cs.map (under ns)) := by
  cases described : q.form.isDescribe with
  | false =>
      obtain ⟨cs, all⟩ := (laidOut_query printable described 0).exists_chunks
      exact ⟨cs, fun ns hns => ⟨(all ns hns).1, (all ns hns).2.1⟩⟩
  | true =>
      cases form : q.form with
      | describe everything targets =>
          obtain ⟨ws, rest, _, describes, all⟩ := exists_describing printable form
          refine ⟨descriptionLine everything (ws.map (·.2)) ++ .gap Byte.newline :: rest,
            fun ns hns => ?_⟩
          obtain ⟨laid, _, written⟩ := all ns hns
          rw [List.map_append, map_under_descriptionLine, List.map_cons]
          exact ⟨written.symm, laid_descriptionLine hns (describes.under ns) laid⟩
      | _ => simp [form, Form.isDescribe] at described

theorem exists_body (h : unit.Printable) :
    ∃ cs, unit.body = texts cs ∧ Laid unit.namespaces cs := by
  obtain ⟨cs, all⟩ := exists_template h.query
  obtain ⟨same, laid⟩ := all unit.namespaces h.namespaces
  exact ⟨_, same.symm, laid⟩

/-- A description with names replaced: its line, and lines behind it that no removal changes. -/
theorem exists_line (h : unit.Printable)
    (members : ∀ e ∈ done, e ∈ unit.namespaces.entries)
    (form : unit.query.form = .describe everything targets) :
    ∃ ws rest, ws.map (·.1) = targets ∧ Describes unit.namespaces ws ∧
      renames done unit.body =
        texts (descriptionLine everything (renamed (labels done) ws)) ++ Byte.newline :: rest ∧
      ∀ d : Declaration, d.IsSpelled → removeLine rest d.content = rest := by
  have hns := h.namespaces
  obtain ⟨ws, rest, same, describes, laid, ended, written⟩ := exists_description h form
  refine ⟨ws, texts (renameAll (labels done) false rest), same, describes, ?_, fun d hd =>
    removeLine_texts (laid_renameAll laid) (ended_renameAll laid ended) hd⟩
  rw [written, renames_texts hns members (laid_descriptionLine hns describes laid),
    renameAll_descriptionLine describes, texts_append]
  rfl

/-- No line of a query ends like the declaration of a namespace. -/
theorem removeLine_namespace (h : unit.Printable)
    (members : ∀ e ∈ done, e ∈ unit.namespaces.entries) (member : entry ∈ unit.namespaces.entries) :
    removeLine (renames done unit.body) (Declaration.namespace entry.1 entry.2).content =
      renames done unit.body := by
  have hns := h.namespaces
  have spelled := Declaration.isSpelled_namespace hns member
  cases form : unit.query.form with
  | describe everything targets =>
      obtain ⟨ws, rest, _, describes, written, stays⟩ := exists_line h members form
      rw [written]
      exact (removeLine_line_iff (newline_not_mem_descriptionLine hns describes)
        (Declaration.newline_not_mem_content spelled) (stays _ spelled)).mpr
        (not_suffix_descriptionLine hns describes member)
  | _ =>
      obtain ⟨cs, same, laid, ended⟩ := exists_ended h (by rw [form]; rfl)
      exact same ▸ (spares_of_ended hns members member laid ended).namespaceLine

theorem mem_of_split (split : orderedEntries unit.namespaces = done ++ entry :: todo) :
    entry ∈ unit.namespaces.entries ∧ ∀ e ∈ done, e ∈ unit.namespaces.entries := by
  simp only [← mem_orderedEntries, split]
  exact ⟨by simp, fun e inside => List.mem_append_left _ inside⟩

/-- In the pass of the empty label a line ends like the declaration of the base if and only if it is
that of such a description. -/
theorem exists_baseLine (h : unit.Printable)
    (split : orderedEntries unit.namespaces = done ++ entry :: todo) (empty : entry.1 = [])
    {base : Text} (found : unit.namespaces.base = some base)
    (form : unit.query.form = .describe everything targets) :
    ∃ line rest, renames done unit.body = line ++ Byte.newline :: rest ∧ Byte.newline ∉ line ∧
      removeLine rest (Declaration.base base).content = rest ∧
      ((Declaration.base base).content <:+ line ↔ unit.DescribesBase) := by
  have hns := h.namespaces
  obtain ⟨member, members⟩ := mem_of_split split
  obtain ⟨kept, others⟩ := labels_of_empty hns split empty
  obtain ⟨ws, rest, rfl, describes, written, stays⟩ := exists_line h members form
  have spelled := Declaration.isSpelled_base hns found
  have removes : removesBase unit.namespaces = true := by
    simp only [removesBase, found, Option.isSome_some, Bool.true_and, List.any_eq_true]
    exact ⟨entry, member, by rw [empty]; rfl⟩
  refine ⟨_, rest, written, newline_not_mem_descriptionLine hns describes, stays _ spelled, ?_⟩
  rw [suffix_descriptionLine_iff hns describes found kept others]
  constructor
  · rintro ⟨front, t, last, resources, isBase, bracketed, letters⟩
    exact ⟨removes, everything, front, t, last, base, resources ▸ form, found, isBase, bracketed,
      letters⟩
  · rintro ⟨_, _, front, t, last, other, form', found', isBase, bracketed, letters⟩
    obtain rfl := Option.some.inj (found.symm.trans found')
    exact ⟨front, t, last, (Form.describe.inj (form.symm.trans form')).2, isBase, bracketed, letters⟩

/-- A pass takes something from the lines of a query if and only if it is that of the empty label and
the query is such a description. -/
theorem withoutBase_body_iff (h : unit.Printable)
    (split : orderedEntries unit.namespaces = done ++ entry :: todo) :
    withoutBase unit.namespaces entry.1 (renames done unit.body) = renames done unit.body ↔
      ¬ (entry.1 = [] ∧ unit.DescribesBase) := by
  have hns := h.namespaces
  by_cases empty : entry.1 = []
  · rw [and_iff_right empty]
    cases form : unit.query.form with
    | describe everything targets =>
        cases found : unit.namespaces.base with
        | none =>
            exact iff_of_true (withoutBase_of_none found _ _) fun describes =>
              describes.base_ne_none found
        | some base =>
            obtain ⟨line, rest, written, free, stays, ends⟩ :=
              exists_baseLine h split empty found form
            rw [empty, withoutBase_nil found, written, removeLine_line_iff free
              (Declaration.newline_not_mem_content (Declaration.isSpelled_base hns found)) stays, ends]
    | _ =>
        obtain ⟨cs, same, laid, ended⟩ := exists_ended h (by rw [form]; rfl)
        obtain ⟨member, members⟩ := mem_of_split split
        exact iff_of_true (same ▸ (spares_of_ended hns members member laid ended).baseLine)
          fun describes => absurd describes.isDescribe (by simp [form, Form.isDescribe])
  · exact iff_of_true (withoutBase_of_ne_nil empty _) fun both => empty both.1

/-- What the pass of the empty label takes from such a description: the end of its line. -/
theorem exists_cut (h : unit.Printable)
    (split : orderedEntries unit.namespaces = done ++ entry :: todo) (empty : entry.1 = [])
    (describesBase : unit.DescribesBase) :
    ∃ base front rest, unit.namespaces.base = some base ∧
      renames done unit.body = front ++ ((Declaration.base base).text ++ rest) ∧
      withoutBase unit.namespaces entry.1 (renames done unit.body) = front ++ rest := by
  obtain ⟨_, everything, _, _, _, base, form, found, _⟩ := id describesBase
  obtain ⟨line, rest, written, free, stays, ends⟩ :=
    exists_baseLine h split empty found form
  obtain ⟨front, rfl⟩ := ends.mpr describesBase
  have spelled := Declaration.isSpelled_base h.namespaces found
  rw [List.append_assoc] at written
  refine ⟨base, front, rest, found, by rw [Declaration.text_eq_content, written], ?_⟩
  rw [empty, withoutBase_nil found, written,
    removeLine_suffix (fun member => free (List.mem_append_left _ member))
      (Declaration.newline_not_mem_content spelled), stays]

/-- All passes but one on such a description take nothing from the lines of the query. -/
theorem spares_body (h : unit.Printable)
    (split : orderedEntries unit.namespaces = done ++ entry :: todo)
    (other : ¬ (entry.1 = [] ∧ unit.DescribesBase)) :
    Spares unit.namespaces done entry unit.body where
  namespaceLine := removeLine_namespace h (mem_of_split split).2 (mem_of_split split).1
  baseLine := (withoutBase_body_iff h split).mpr other

/-- Behind passes on the lines of a query there are the declarations of the other labels, and the
query with its names replaced. -/
theorem passes_write (h : unit.Printable)
    (members : ∀ e ∈ done, e ∈ unit.namespaces.entries)
    (spares : ∀ front e behind, done = front ++ e :: behind →
      Spares unit.namespaces front e unit.body) :
    passes unit.namespaces done unit.write =
      Declaration.lines (declarationsLeft unit.namespaces done) ++ renames done unit.body := by
  obtain ⟨cs, written, laid⟩ := exists_body h
  rw [write_eq_body, written]
  exact passes_of_spares h.namespaces members laid (written ▸ spares)

/-- Passes of labels that are not empty take no more than declarations. -/
theorem passes_named {last : List (Text × Text)} (h : unit.Printable)
    (split : orderedEntries unit.namespaces = done ++ last) (named : ∀ e ∈ done, e.1 ≠ []) :
    passes unit.namespaces done unit.write =
      Declaration.lines (declarationsLeft unit.namespaces done) ++ renames done unit.body := by
  have members : ∀ e ∈ done, e ∈ unit.namespaces.entries := fun e inside =>
    mem_orderedEntries.mp (split ▸ List.mem_append_left _ inside)
  refine passes_write h members fun front e behind same => ?_
  rw [same, List.append_assoc, List.cons_append] at split
  exact spares_body h split fun both => named e (by simp [same]) both.1

theorem passes_before (h : unit.Printable)
    (split : orderedEntries unit.namespaces = done ++ entry :: todo) :
    passes unit.namespaces done unit.write =
      Declaration.lines (declarationsLeft unit.namespaces done) ++ renames done unit.body :=
  passes_named h split fun _ => ne_nil_of_before h.namespaces split

theorem afterRemoval_write (h : unit.Printable)
    (split : orderedEntries unit.namespaces = done ++ entry :: todo) :
    afterRemoval unit.namespaces done entry unit.write =
      Declaration.lines (declarationsLeft unit.namespaces (done ++ [entry])) ++
        withoutBase unit.namespaces entry.1 (renames done unit.body) := by
  obtain ⟨member, members⟩ := mem_of_split split
  rw [afterRemoval, passes_before h split, removeDeclarations_append
    h.namespaces member (fun d => mem_declarations_of_left)
    (removeLine_namespace h members member), declarationsLeft_concat]

/-- Up to a pass there are the declarations of the labels that had none, and the query with the names
of the others replaced. The pass removes the declarations of its label. It removes something else if
and only if it is that of the empty label and the query is such a description, and then the end of the
line that ends like the declaration of the base. Behind all passes no declaration is left but that of
a base without a default namespace. -/
theorem removes_only_declarations (h : parse s = .ok unit) (spellable : unit.IsSpellable) :
    (∀ done entry todo, orderedEntries unit.namespaces = done ++ entry :: todo →
      passes unit.namespaces done unit.write =
          Declaration.lines (declarationsLeft unit.namespaces done) ++ renames done unit.body ∧
        (afterRemoval unit.namespaces done entry unit.write =
            Declaration.lines (declarationsLeft unit.namespaces (done ++ [entry])) ++
              renames done unit.body ↔
          ¬ (entry.1 = [] ∧ unit.DescribesBase)) ∧
        (entry.1 = [] → unit.DescribesBase → ∃ base front rest,
          unit.namespaces.base = some base ∧
            renames done unit.body = front ++ ((Declaration.base base).text ++ rest) ∧
            afterRemoval unit.namespaces done entry unit.write =
              Declaration.lines (declarationsLeft unit.namespaces (done ++ [entry])) ++
                (front ++ rest))) ∧
      (¬ unit.DescribesBase → withoutPrefixes unit.namespaces unit.write =
        Declaration.lines (remaining unit.namespaces) ++
          renames (orderedEntries unit.namespaces) unit.body) := by
  have printable := printable_of_parse h spellable
  refine ⟨fun done entry todo split => ⟨passes_before printable split, ?_,
    fun empty describesBase => ?_⟩, fun plain => ?_⟩
  · rw [afterRemoval_write printable split, List.append_cancel_left_eq,
      withoutBase_body_iff printable split]
  · obtain ⟨base, front, rest, found, cut, left⟩ := exists_cut printable split empty describesBase
    exact ⟨base, front, rest, found, cut, by rw [afterRemoval_write printable split, left]⟩
  · rw [← filter_declarations]
    exact passes_write printable (fun e => mem_orderedEntries.mp) fun front e behind split =>
      spares_body printable split fun both => plain both.2

/-- A description of a variable that ends with the word of a base's declaration, and of the base. -/
def described : Text := utf8 "PREFIX : <u:>BASE <v:>DESCRIBE ?BASE <v:>"

/-- The query that is read from the description. -/
def describedUnit : QueryUnit where
  namespaces := ⟨[([], utf8 "u:")], some (utf8 "v:")⟩
  query :=
    { form := .describe false [⟨.var (utf8 "BASE"), ⟨31, 36⟩⟩, ⟨.iri (utf8 "v:"), ⟨37, 41⟩⟩]
      resultVariables := [utf8 "BASE"]
      dataset := []
      root := ⟨.group, [], [], none, {}⟩
      groupBy := []
      having := []
      orderBy := []
      limit := none
      offset := none
      values := none
      span := ⟨0, 41⟩ }

/-- From a test that is no description no more than its declarations goes; the description loses the
end of its line. -/
theorem removes_only_declarations_tests :
    (∃ unit, parse negated = .ok unit ∧ withoutPrefixes unit.namespaces unit.write =
      renames (orderedEntries unit.namespaces) unit.body) ∧
    ∃ unit, parse described = .ok unit ∧ ∃ base front rest, unit.namespaces.base = some base ∧
      unit.body = front ++ ((Declaration.base base).text ++ rest) ∧
      afterRemoval unit.namespaces [] ([], utf8 "u:") unit.write = front ++ rest := by
  have read : parse described = .ok describedUnit := by
    set_option maxRecDepth 100000 in with_unfolding_all rfl
  have spellable : describedUnit.IsSpellable := by
    have clean : IsCleanIri (utf8 "v:") := by decide
    refine ⟨by decide, Query.everywhere_iff.mpr ?_⟩
    simp [describedUnit, cleanChecks, Query.Clean, Node.Clean, GroupKind.Everywhere, tableEverywhere,
      clean]
  have describesBase : describedUnit.DescribesBase :=
    ⟨rfl, false, [], _, _, _, rfl, rfl, rfl, rfl, show _ <:+ _ from List.suffix_rfl⟩
  have order : orderedEntries describedUnit.namespaces = [] ++ ([], utf8 "u:") :: [] :=
    List.mergeSort_singleton _
  refine ⟨⟨_, parse_negated, ?_⟩, _, read, ?_⟩
  · exact (removes_only_declarations parse_negated isSpellable_negatedUnit).2 fun describes =>
      absurd describes.isDescribe (by decide)
  · exact ((removes_only_declarations read spellable).1 _ _ _ order).2.2 rfl describesBase

end QueryUnit

end SparqlMetrics
