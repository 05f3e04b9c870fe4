import SparqlMetrics.Proofs.Reading.Trees

/-!
# Reading whole queries

A query is read from its lines: its form, the graphs of its dataset, its pattern, its solution
modifiers and its table. A template has to keep its triples: one that drifts into a path stops the
reading.
-/
namespace SparqlMetrics

open Lexeme

/-- Whether the triples of a template stay triples. -/
def Form.Keeps (form : Form) : Prop :=
  ∀ template, form = .construct template → ∀ t ∈ template, t.Keeps

def Form.keyword : Form → Keyword
  | .select _ _ _ => .SELECT
  | .ask => .ASK
  | .construct _ => .CONSTRUCT
  | .describe _ _ => .DESCRIBE

namespace Query

/-- What a query has in front of its solution modifiers. -/
def body (q : Query) : Grammar.Body := ⟨q.form, q.dataset, q.root⟩

/-- Whether what a query has in front of its solution modifiers fits an allowance, and the triples of
its template stay triples. -/
def BodyFits (n : Nat) (q : Query) : Prop :=
  (∀ modifier everything items, q.form = .select modifier everything items →
    ∀ p ∈ items, p.Fits n) ∧ q.root.Fits n ∧ q.form.Keeps

end Query

namespace Grammar

open SparqlMetrics.Parser TwoRuns Cursor

section Dataset
variable {ns : Namespaces} {indent : Nat} {rest : Text}

/-- The word that names a graph, behind a space, or nothing. -/
def namedWord (named : Bool) : Text := if named then Byte.space :: utf8 "NAMED" else []

theorem write_datasetClause (clause : DatasetClause) : clause.write ns =
    utf8 "FROM" ++ (namedWord clause.named ++ Byte.space :: ns.writeIri clause.iri) := by
  have words : utf8 (if clause.named then "FROM NAMED " else "FROM ") =
      utf8 "FROM" ++ (namedWord clause.named ++ [Byte.space]) := by
    cases clause.named <;> decide
  rw [DatasetClause.write, words]
  simp

theorem fares_datasetClause (hns : ns.Labelled) {clause : DatasetClause}
    (absolute : Iri.hasScheme clause.iri = true) (clean : IsCleanIri clause.iri) :
    Fares (datasetClause? ns) (line indent (clause.write ns)) True (some (clause.rewrite reread))
      rest := by
  obtain ⟨iri, named⟩ := clause
  obtain ⟨l, opens, spells⟩ := opens_writeIri hns absolute clean
    (stopsAt_cons (by decide) : Parts (Byte.newline :: rest))
  have spaced : Opens (Byte.space :: ns.writeIri iri ++ Byte.newline :: rest) l
      (Byte.newline :: rest) := opens.space (by decide)
  have first := Text.first_of_opens spaced
  have read : Fares (do
      let found ← resolvedIri ns
      skip
      pure (some (DatasetClause.mk found named))) (Byte.space :: ns.writeIri iri) True
      (some ⟨iri, named⟩) (Byte.newline :: rest) :=
    Reads.peek (resolvedIri_before spells first) ((fares_skip spaced).bind_pure rfl)
  rw [write_datasetClause]
  refine Reads.line ?_ indent (List.cons_ne_nil _ _)
  cases named with
  | false =>
      refine Fares.then (fares_tryKeyword (opens_keyword .FROM (stopsAt_cons (by decide))) rfl) ?_
      refine Reads.noKeyword ?_ read
      show (Text.first (Byte.space :: ns.writeIri iri ++ Byte.newline :: rest)).keyword? ≠ _
      rw [first]
      cases spells <;> nofun
  | true =>
      refine Fares.then (fares_tryKeyword (opens_keyword .FROM (stopsAt_cons (by decide))) rfl) ?_
      exact Fares.then (s := namedWord true) (x := true)
        (fares_tryKeyword (opens_wordSpaced .NAMED (stopsAt_cons (by decide))) rfl) read

theorem fares_datasetClauses (hns : ns.Labelled) {dataset : List DatasetClause}
    (absolute : ∀ clause ∈ dataset, Iri.hasScheme clause.iri = true)
    (clean : ∀ clause ∈ dataset, IsCleanIri clause.iri)
    (ends : rest.first.keyword? ≠ some .FROM) :
    Fares (datasetClauses ns) (datasetLines ns indent dataset) True
      (dataset.map (DatasetClause.rewrite reread)) rest := by
  have items : ReadsItems Fails (datasetClause? ns) (fun _ => True)
      (fun clause => line indent (clause.write ns)) (fun _ => True) (DatasetClause.rewrite reread)
      dataset :=
    ⟨fun clause member t _ => fares_datasetClause hns (absolute clause member) (clean clause member),
      fun _ _ _ _ => trivial, fun _ _ => line_ne_nil _ _⟩
  exact (items.many trivial (resumes_fails _) (bind_eq_of_ok (tryKeyword_before ends))).congr
    (iff_true_intro fun _ _ => trivial)

theorem closesList_dataset (dataset : List DatasetClause) (closes : closesList rest.first = true) :
    closesList (datasetLines ns indent dataset ++ rest).first = true := by
  cases dataset with
  | nil => exact closes
  | cons clause dataset =>
      have opens : ∀ t, Opens (utf8 "FROM" ++ (namedWord clause.named ++ Byte.space :: t))
          (.keyword .FROM (utf8 "FROM")) (namedWord clause.named ++ Byte.space :: t) := by
        intro t
        refine opens_keyword .FROM ?_
        cases clause.named <;> exact stopsAt_cons (by decide)
      rw [datasetLines, List.flatMap_cons, List.append_assoc, first_line, write_datasetClause,
        List.append_assoc, List.append_assoc, List.cons_append, Text.first_of_opens (opens _)]
      rfl

end Dataset

section Describe
variable {ns : Namespaces} {indent : Nat} {targets : List Term} {rest : Text}

theorem describeTarget?_stops {s : Text} (closes : closesList s.first = true) :
    describeTarget? ns (before s) = .ok (none, before s) := by
  have here : lexeme (before s) = .ok (s.first, before s) := rfl
  rw [describeTarget?, bind_eq_of_ok here]
  cases first : s.first with
  | keyword k spelled => rfl
  | symbol m => rfl
  | endOfInput => rfl
  | _ =>
      rw [first] at closes
      cases closes

theorem fares_describeTarget (hns : ns.Labelled) {t : Term} (legal : t.node.Legal true)
    (clean : t.node.Clean) (named : t.node.isIri = true ∨ t.node.isVar = true)
    (ends : EndsTerm rest) :
    Fares (describeTarget? ns) (t.write ns) True (some (bare t)) rest := by
  obtain ⟨l, behind, opens, opened⟩ := opens_term hns legal clean ends.parts
  have read : Fares (some <$> varOrIri ns) (t.write ns) True (some (bare t)) rest :=
    (fares_varOrIri hns legal clean named ends).map
  refine Reads.lexeme (Text.first_of_opens opens) ?_
  obtain ⟨node, span⟩ := t
  cases opened with
  | var => exact read
  | iri spells => cases spells <;> exact read
  | _ => simp [Node.isIri, Node.isVar] at named

/-- The described resources. -/
theorem fares_describeTargets (hns : ns.Labelled)
    (h : ∀ t ∈ targets, t.node.Legal true ∧ t.node.Clean)
    (named : ∀ t ∈ targets, t.node.isIri = true ∨ t.node.isVar = true)
    (closes : closesList rest.first = true) :
    Fares (many (describeTarget? ns)) (targets.flatMap fun t => Byte.space :: t.write ns) True
      (targets.map bare) (Byte.newline :: rest) := by
  refine (fares_items (g := fun _ => True) ?_ ?_ ?_ closes fun s closes =>
    describeTarget?_stops closes).congr (iff_true_intro fun _ _ => trivial)
  · exact fun t member => write_term_ne_nil hns (h t member).1
  · intro t member s ends
    exact fares_describeTarget hns (h t member).1 (h t member).2 (named t member) ends
  · intro t member s ends
    obtain ⟨l, behind, opens, opened⟩ := opens_term hns (h t member).1 (h t member).2 ends.parts
    rw [Text.first_of_opens opens]
    exact continuesString_of_opened opened

theorem first_targets (hns : ns.Labelled) (h : ∀ t ∈ targets, t.node.Legal true ∧ t.node.Clean)
    (nonempty : targets ≠ []) (rest : Text) :
    Text.first (targets.flatMap (fun t => Byte.space :: t.write ns) ++ Byte.newline :: rest) ≠
      .symbol .star := by
  cases targets with
  | nil => exact absurd rfl nonempty
  | cons t targets =>
      obtain ⟨legal, clean⟩ := h t List.mem_cons_self
      rw [List.flatMap_cons, List.append_assoc, List.cons_append, Text.first_space _ (by decide)]
      refine first_term hns legal clean ?_ (by decide)
      cases targets <;> exact stopsAt_cons (by decide)

/-- The line of a description. -/
theorem fares_describeClause (hns : ns.Labelled) {everything : Bool}
    (legal : (Form.describe everything targets).Legal)
    (h : (Form.describe everything targets).Everywhere printableChecks)
    (closes : closesList rest.first = true) :
    Fares (describeClause ns) ((Form.describe everything targets).write ns indent).text True
      ((Form.describe everything targets).rewrite reread) rest := by
  obtain ⟨all, named⟩ := legal
  cases everything with
  | true =>
      obtain rfl := all.mp rfl
      have star : Opens ([Byte.space, Byte.star] ++ Byte.newline :: rest) (.symbol .star)
          (Byte.newline :: rest) := (opens_byte (b := Byte.star) (s := .star) (by decide) _).space
            (b := Byte.space) (by decide)
      have written : ((Form.describe true []).write ns indent).text =
          line indent (utf8 "DESCRIBE" ++ [Byte.space, Byte.star]) := by
        have word : utf8 "DESCRIBE *" = utf8 "DESCRIBE" ++ [Byte.space, Byte.star] := by decide
        simp [Form.write, word]
      rw [written]
      refine Reads.line ?_ indent (List.cons_ne_nil _ _)
      refine Fares.then (fares_skip (opens_keyword .DESCRIBE (stopsAt_cons (by decide)))) ?_
      exact (fares_tryMark star).bind_pure rfl
  | false =>
      have nonempty : targets ≠ [] := fun noTargets => by cases all.mpr noTargets
      have written : ((Form.describe false targets).write ns indent).text =
          line indent (utf8 "DESCRIBE" ++ targets.flatMap fun t => Byte.space :: t.write ns) := by
        simp [Form.write]
      rw [written, Form.rewrite]
      refine Reads.line ?_ indent (List.cons_ne_nil _ _)
      refine Fares.then (fares_skip (opens_keyword .DESCRIBE (breaks_items targets rest))) ?_
      refine Reads.noMark (first_targets hns h nonempty rest) ?_
      exact fares_nonempty (fares_describeTargets hns h named closes) (by simpa using nonempty) rfl

end Describe

section Template
variable {ns : Namespaces} {indent n : Nat} {ts : List Triple} {rest : Text}

/-- Adds triples to those of a template. -/
def templateStep (level : Level) (v : Bool × List Element) :
    Parser (Option (Bool × List Element)) := do
  match ← templateTriples? level v.1 with
  | some (more, triples) => pure (some (more, v.2 ++ triples))
  | none => pure none

theorem template_eq (level : Level) : template level = (do
    let v ← repeatFrom (templateStep level) (true, [])
    mark .rbrace .closeTemplate
    pure v.2) := rfl

theorem foldl_template (ts : List Triple) (v : Bool × List Element) (more : v.1 = true) :
    ts.foldl (fun v t => (true, v.2 ++ [(Element.triple t).rewrite reread])) v =
      (true, v.2 ++ ts.map fun t => (Element.triple t).rewrite reread) := by
  induction ts generalizing v with
  | nil => simp [← more]
  | cons t ts ih =>
      rw [List.foldl_cons, ih _ rfl, List.map_cons, List.append_assoc]
      rfl

theorem templateStep_stops (level : Level) {v : Bool × List Element} (more : v.1 = true) {s : Text}
    (closes : s.first = .symbol .rbrace) :
    templateStep level v (before s) = .ok (none, before s) := by
  have here := isAt_before (beq_iff_eq.mpr closes)
  have noTriples : templateTriples? level true (before s) = .ok (none, before s) := by
    rw [templateTriples?, bind_eq_of_ok here]
    rfl
  rw [templateStep, more, bind_eq_of_ok noTriples]
  rfl

/-- A line of a template. -/
theorem fares_templateStep (hns : ns.Labelled) {t : Triple} (formed : t.IsWellFormed)
    (h : t.Everywhere printableChecks) {v : Bool × List Element} (more : v.1 = true) :
    Fares (templateStep (Level.ofAllowance ns n) v) (line indent (t.write ns)) True
      (some (true, v.2 ++ [(Element.triple t).rewrite reread])) rest := by
  have printable : (Element.triple t).Everywhere printableChecks :=
    ⟨⟨⟨formed, trivial⟩, trivial⟩, h⟩
  have written : ((Element.triple t).write ns indent).text = line indent (t.write ns) := by
    rw [Element.write, Passage.text_part]
  have read : Fares (templateTriples? (Level.ofAllowance ns n) true)
      ((Element.triple t).write ns indent).text ((Element.triple t).Fits n)
      (some (true, [(Element.triple t).rewrite reread])) rest :=
    fares_templateTriples hns rfl printable n indent
  rw [written] at read
  rw [templateStep, more]
  exact Fares.bind_pure (read.congr (iff_true_intro Element.fits_triple)) rfl

/-- The triples of a template and the brace behind them. -/
theorem fares_template (hns : ns.Labelled) (formed : ∀ t ∈ ts, t.IsWellFormed)
    (h : ∀ t ∈ ts, t.Everywhere printableChecks) :
    Fares (template (Level.ofAllowance ns n))
      (ts.flatMap (fun t => line (indent + 2) (t.write ns)) ++ line indent [Byte.rbrace]) True
      (ts.map fun t => (Element.triple t).rewrite reread) rest := by
  have changes : ReadsChanges (templateStep (Level.ofAllowance ns n)) (fun v => v.1 = true)
      (fun _ => True) (fun t => line (indent + 2) (t.write ns)) (fun _ => True)
      (fun v t => (true, v.2 ++ [(Element.triple t).rewrite reread])) ts :=
    ⟨fun t member _ _ more _ => fares_templateStep hns (formed t member) (h t member) more,
      fun _ _ _ _ => rfl, fun _ _ _ _ => trivial, fun _ _ => line_ne_nil _ _⟩
  have closes : (line indent [Byte.rbrace] ++ rest).first = .symbol .rbrace :=
    Text.first_of_opens (opens_brace indent (by decide) rest)
  have triples := changes.repeatFrom (v := (true, [])) trivial
    (fun v more => templateStep_stops _ more closes) rfl
  rw [foldl_template ts (true, []) rfl] at triples
  rw [template_eq]
  refine Fares.then (triples.congr (iff_true_intro fun _ _ => trivial)) ?_
  exact (fares_markLine indent (by decide) _).bind_pure rfl

theorem rewrite_drifting {t : Triple} (drifts : ¬ t.Keeps) :
    ∃ subject p object span, (Element.triple t).rewrite reread = .path subject p object span := by
  have ⟨isIri, signed⟩ := Classical.not_imp.mp drifts
  obtain ⟨node, unsigned⟩ := Option.ne_none_iff_exists'.mp signed
  have same : (t.rewrite reread).predicate.node.isIri = true ∧
      (t.rewrite reread).object.node.unsigned? = some node := by
    rw [Triple.rewrite, node_reread, node_reread]
    exact ⟨isIri, unsigned⟩
  show ∃ subject p object span, Element.drift (.triple (t.rewrite reread)) = _
  rw [Element.drift, if_pos same.1, drifted?, same.2]
  exact ⟨_, _, _, _, rfl⟩

/-- The triples of a template, if all of them stay triples. -/
theorem fares_templateOf (ts : List Triple) :
    Fares (templateOf (ts.map fun t => (Element.triple t).rewrite reread)) [] (∀ t ∈ ts, t.Keeps)
      (ts.map (Triple.rewrite reread)) rest := by
  induction ts with
  | nil =>
      have read : Fares (templateOf []) [] True [] rest := reads_nothing rfl
      exact read.congr (iff_of_true trivial (List.forall_mem_nil _))
  | cons t ts ih =>
      rw [List.map_cons]
      by_cases keeps : t.Keeps
      · rw [Element.rewrite_triple keeps, templateOf]
        refine Reads.congr (Fares.bind_pure ih rfl) ?_
        rw [List.forall_mem_cons]
        exact (and_iff_right keeps).symm
      · obtain ⟨subject, p, object, span, drifted⟩ := rewrite_drifting keeps
        rw [drifted]
        refine ⟨fun all => absurd (all t List.mem_cons_self) keeps, fun _ => ⟨_, rfl⟩, ?_⟩
        exact fun absurdity => absurd rfl absurdity

end Template

section Bodies
variable {ns : Namespaces} {indent n : Nat} {q : Query} {rest : Text}

/-- The lines of what a query has in front of its solution modifiers. -/
def bodyLines (ns : Namespaces) (indent : Nat) (q : Query) : Text :=
  (q.form.write ns indent).text ++ (datasetLines ns indent q.dataset ++ patternLines ns indent q)

/-- The graphs of a dataset in front of a pattern. -/
theorem fares_datasetLines (hns : ns.Labelled) (h : q.Everywhere printableChecks)
    (ends : rest.first.keyword? ≠ some .FROM) :
    Fares (datasetClauses (Level.ofAllowance ns n).namespaces) (datasetLines ns indent q.dataset)
      True (q.dataset.map (DatasetClause.rewrite reread)) rest := by
  obtain ⟨⟨⟨_, _, _, absolute, _⟩, clean⟩, _⟩ := Query.everywhere_iff.mp h
  rw [namespaces_ofAllowance]
  exact fares_datasetClauses hns absolute clean ends

/-- The graphs of a dataset and the pattern behind them. -/
theorem fares_scope {β : Type} (hns : ns.Labelled) (h : q.Everywhere printableChecks)
    (reads : ReadsParts ns indent q) {f : List DatasetClause → Group → Parser β} {g : Prop} {y : β}
    (hf : Fares (f (q.dataset.map (DatasetClause.rewrite reread)) (q.root.rewrite reread)) [] g y
      rest) :
    Fares (do
      let dataset ← datasetClauses (Level.ofAllowance ns n).namespaces
      let root ← whereClause (Level.ofAllowance ns n)
      f dataset root) (datasetLines ns indent q.dataset ++ whereText ns indent q.root)
      (q.root.Fits n ∧ g) y rest := by
  obtain ⟨⟨⟨_, _, kind, _⟩, _⟩, _⟩ := Query.everywhere_iff.mp h
  have pattern := Fares.bind (fares_whereClause (n := n) kind reads.root) hf
  rw [List.append_nil] at pattern
  refine Fares.then (fares_datasetLines hns h ?_) pattern
  rw [first_whereText]
  nofun

theorem patternLines_of_not_describe (h : q.form.isDescribe = false) :
    patternLines ns indent q = whereText ns indent q.root := by
  rw [patternLines, h]
  rfl

theorem closesList_scope (rest : Text) :
    closesList (datasetLines ns indent q.dataset ++ whereText ns indent q.root ++ rest).first =
      true := by
  rw [List.append_assoc]
  refine closesList_dataset q.dataset ?_
  rw [first_whereText]
  rfl

theorem body_rewrite (q : Query) : (q.rewrite reread).body =
    ⟨q.form.rewrite reread, q.dataset.map (DatasetClause.rewrite reread), q.root.rewrite reread⟩ := by
  cases q
  rfl

theorem fares_selectBody (hns : ns.Labelled) (h : q.Everywhere printableChecks)
    (reads : ReadsParts ns indent q) {modifier : SelectModifier} {everything : Bool}
    {items : List Projection} (form : q.form = .select modifier everything items) :
    Fares (selectBody (Level.ofAllowance ns n)) (bodyLines ns indent q) (q.BodyFits n)
      (q.rewrite reread).body rest := by
  obtain ⟨⟨⟨_, legal, _⟩, _⟩, _⟩ := Query.everywhere_iff.mp h
  rw [form] at legal
  rw [body_rewrite, bodyLines, patternLines_of_not_describe (by rw [form]; rfl), form]
  refine Reads.congr (g := (∀ p ∈ items, p.Fits n) ∧ q.root.Fits n ∧ True) ?_ ?_
  · exact Fares.bind (fares_selectClause legal (reads.items _ _ _ form) (closesList_scope rest))
      (fares_scope hns h reads (reads_nothing rfl))
  · simp [Query.BodyFits, Form.Keeps, form]

theorem fares_keywordSkip (k : Keyword) (rest : Text) :
    Fares skip (line indent (utf8 k.name)) True () rest := by
  have nonempty : utf8 k.name ≠ [] := by cases k <;> decide
  exact Reads.line (fares_skip (opens_keyword k (stopsAt_cons (by decide)))) indent nonempty

theorem fares_askBody (hns : ns.Labelled) (h : q.Everywhere printableChecks)
    (reads : ReadsParts ns indent q) (form : q.form = .ask) :
    Fares (askBody (Level.ofAllowance ns n)) (bodyLines ns indent q) (q.BodyFits n)
      (q.rewrite reread).body rest := by
  have written : (Form.ask.write ns indent).text = line indent (utf8 "ASK") := by
    rw [Form.write, Passage.text_part]
  rw [body_rewrite, bodyLines, patternLines_of_not_describe (by rw [form]; rfl), form, written]
  refine Reads.congr (g := q.root.Fits n ∧ True) ?_ ?_
  · exact Fares.then (fares_keywordSkip .ASK _) (fares_scope hns h reads (reads_nothing rfl))
  · simp [Query.BodyFits, Form.Keeps, form]

theorem fares_constructBody (hns : ns.Labelled) (h : q.Everywhere printableChecks)
    (reads : ReadsParts ns indent q) {template : List Triple} (form : q.form = .construct template) :
    Fares (do
        skip
        if ← isAt .lbrace then constructBody (Level.ofAllowance ns n)
        else constructWhereBody (Level.ofAllowance ns n)) (bodyLines ns indent q) (q.BodyFits n)
      (q.rewrite reread).body rest := by
  obtain ⟨⟨⟨formed, _⟩, _⟩, terms, _⟩ := Query.everywhere_iff.mp h
  rw [form] at terms
  have written : ((Form.construct template).write ns indent).text =
      line indent (utf8 "CONSTRUCT") ++ (line indent [Byte.lbrace] ++
        (template.flatMap (fun t => line (indent + 2) (t.write ns)) ++ line indent [Byte.rbrace])) := by
    simp [Form.write]
  have openBrace : ∀ t, Fares skip (line indent [Byte.lbrace]) True () t := fun t =>
    Reads.line (fares_skip (opens_byte (s := .lbrace) (by decide) _)) indent (List.cons_ne_nil _ _)
  have keep : Fares (do
        let triples ← templateOf (template.map fun t => (Element.triple t).rewrite reread)
        pure (Body.mk (.construct triples) (q.dataset.map (DatasetClause.rewrite reread))
          (q.root.rewrite reread))) [] (∀ t ∈ template, t.Keeps)
      ⟨.construct (template.map (Triple.rewrite reread)),
        q.dataset.map (DatasetClause.rewrite reread), q.root.rewrite reread⟩ rest :=
    (fares_templateOf template).bind_pure rfl
  rw [body_rewrite, bodyLines, patternLines_of_not_describe (by rw [form]; rfl), form, written,
    Form.rewrite]
  simp only [List.append_assoc]
  refine Reads.congr (g := q.root.Fits n ∧ ∀ t ∈ template, t.Keeps) ?_ ?_
  · refine Fares.then (fares_keywordSkip .CONSTRUCT _) (Reads.isAt (b := true) ?_ ?_)
    · simp only [List.append_assoc]
      rw [Text.first_of_opens (opens_brace indent (m := .lbrace) (by decide) _)]
      rfl
    · refine Fares.then (openBrace _) ?_
      rw [← List.append_assoc]
      refine Fares.then (fares_template hns (formed template form) terms) ?_
      exact fares_scope hns h reads keep
  · simp [Query.BodyFits, Form.Keeps, form]

/-- An empty pattern is the one that a description without a pattern has. -/
theorem rewrite_of_isEmpty {g : Group} (kind : g.kind = .group) (blank : g.isEmpty = true) :
    g.rewrite reread = .empty .group ∧ g.Fits (n + 1) := by
  obtain ⟨_, elements, children, data, span⟩ := g
  obtain rfl : _ = GroupKind.group := kind
  simp only [Group.isEmpty, Bool.and_eq_true, List.isEmpty_iff, Option.isNone_iff_eq_none] at blank
  obtain ⟨⟨rfl, rfl⟩, rfl⟩ := blank
  exact ⟨rfl, (Group.fits_braces rfl).mpr ⟨List.forall_mem_nil _, List.forall_mem_nil _⟩⟩

theorem fares_describeBody (hns : ns.Labelled) (h : q.Everywhere printableChecks)
    (reads : ReadsParts ns indent q) {everything : Bool} {targets : List Term}
    (form : q.form = .describe everything targets)
    (closes : OpensClause [.GROUP, .HAVING, .ORDER, .LIMIT, .OFFSET, .VALUES] rest.first) :
    Fares (describeBody (Level.ofAllowance ns (n + 1))) (bodyLines ns indent q)
      (q.BodyFits (n + 1)) (q.rewrite reread).body rest := by
  obtain ⟨⟨⟨_, legal, kind, _⟩, _⟩, terms, _⟩ := Query.everywhere_iff.mp h
  rw [form] at legal terms
  have describes : ∀ t : Text, closesList t.first = true →
      Fares (describeClause (Level.ofAllowance ns (n + 1)).namespaces)
        ((Form.describe everything targets).write ns indent).text True
        ((Form.describe everything targets).rewrite reread) t := fun t first => by
    rw [namespaces_ofAllowance]
    exact fares_describeClause hns legal terms first
  have noTemplate : (Form.describe everything targets).Keeps := by simp [Form.Keeps]
  have noItems : q.BodyFits (n + 1) ↔ q.root.Fits (n + 1) := by
    simp [Query.BodyFits, noTemplate, form]
  rw [body_rewrite, bodyLines, form]
  cases blank : q.root.isEmpty with
  | true =>
      obtain ⟨empty, fits⟩ := rewrite_of_isEmpty (n := n) kind blank
      have absent : patternLines ns indent q = [] := by simp [patternLines, form, Form.isDescribe, blank]
      have first : closesList (datasetLines ns indent q.dataset ++ rest).first = true :=
        closesList_dataset q.dataset (closes.closes (by decide))
      have noWhere := beq_eq_false_iff_ne.mpr (closes.keyword_ne (k := .WHERE) (by decide))
      have noBrace : (rest.first == .symbol .lbrace) = false := by
        rcases closes with here | here | ⟨k, _, spelled, here⟩ <;> rw [here] <;> rfl
      rw [absent, List.append_nil, empty]
      refine Reads.congr (g := True) ?_ (iff_of_true trivial (noItems.mpr fits))
      refine Fares.then (describes _ first) ?_
      refine Fares.bind_pure (fares_datasetLines hns h (closes.keyword_ne (by decide))) ?_
      rw [bind_eq_of_ok (isAtKeyword_before noWhere), bind_eq_of_ok (isAt_before noBrace)]
      rfl
  | false =>
      have here : patternLines ns indent q = whereText ns indent q.root := by
        simp [patternLines, blank]
      have atWhere : ∀ t, (whereText ns indent q.root ++ t).first.keyword? = some .WHERE :=
        fun t => by rw [first_whereText]; rfl
      rw [here]
      refine Reads.congr ?_ noItems.symm
      refine Fares.then (describes _ (closesList_scope rest)) ?_
      refine Fares.then (fares_datasetLines hns h (by rw [atWhere]; decide)) ?_
      refine Reads.isAtKeyword (beq_iff_eq.mpr (atWhere rest)) (Reads.isAt rfl ?_)
      exact (fares_whereClause kind reads.root).bind_pure rfl

theorem first_describe (everything : Bool) (targets : List Term) (t : Text) :
    (((Form.describe everything targets).write ns indent).text ++ t).first =
      .keyword .DESCRIBE (utf8 "DESCRIBE") := by
  have star : utf8 "DESCRIBE *" = utf8 "DESCRIBE" ++ [Byte.space, Byte.star] := by decide
  rw [Form.write, Passage.text_part, first_line]
  cases everything with
  | true =>
      rw [if_pos rfl, star, List.append_assoc, List.append_assoc]
      exact Text.first_of_opens (opens_keyword .DESCRIBE (stopsAt_cons (by decide)))
  | false =>
      rw [if_neg (by decide), List.append_assoc]
      exact Text.first_of_opens (opens_keyword .DESCRIBE (breaks_items targets t))

theorem first_form (form : Form) (t : Text) :
    ((form.write ns indent).text ++ t).first =
      .keyword form.keyword (utf8 form.keyword.name) := by
  cases form with
  | select modifier everything items => exact first_select _ _ _ _
  | ask =>
      rw [Form.write, Passage.text_part]
      exact first_keywordLine .ASK _
  | construct template =>
      simp only [Form.write, Passage.text_append, Passage.text_part, List.append_assoc]
      exact first_keywordLine .CONSTRUCT _
  | describe everything targets => exact first_describe _ _ _

/-- What a query has in front of its solution modifiers is read as what is read in its place. -/
theorem fares_body (hns : ns.Labelled) (h : q.Everywhere printableChecks)
    (reads : ReadsParts ns indent q)
    (closes : OpensClause [.GROUP, .HAVING, .ORDER, .LIMIT, .OFFSET, .VALUES] rest.first) :
    Fares (body (Level.ofAllowance ns (n + 1))) (bodyLines ns indent q) (q.BodyFits (n + 1))
      (q.rewrite reread).body rest := by
  have first : (bodyLines ns indent q ++ rest).first =
      .keyword q.form.keyword (utf8 q.form.keyword.name) := by
    rw [bodyLines, List.append_assoc]
    exact first_form _ _
  refine Reads.lexeme first ?_
  cases form : q.form with
  | select modifier everything items => exact fares_selectBody hns h reads form
  | ask => exact fares_askBody hns h reads form
  | construct template => exact fares_constructBody hns h reads form
  | describe everything targets => exact fares_describeBody hns h reads form closes

end Bodies

section Whole
variable {ns : Namespaces} {q : Query}

theorem endOfText_before : endOfText (before []) = .ok ((), before []) := by
  have here : lexeme (before []) = .ok (.endOfInput, before []) := by
    rw [← Text.first_nil]
    rfl
  exact bind_eq_of_ok here

/-- The lines of a whole query are read where it fits the nesting that is allowed and its template
keeps its triples, and only there; what is read is the query with its elements drifted. -/
theorem fares_queryBehind (plain : ns.Plain) (h : q.Everywhere printableChecks)
    (names : q.resultVariables = q.form.resultVariables q.root none) :
    Fares (queryBehind ns) (q.write ns 0).text (q.Fits maxNesting ∧ q.form.Keeps)
      ⟨ns, q.rewrite reread⟩ [] := by
  have hns := plain.labelled
  obtain ⟨_, _, _, _, _, _, table⟩ := Query.everywhere_iff.mp h
  have reads := readsParts_of_printable hns q h 0
  have ends : OpensClause [] (Text.first []) := .inr (.inl Text.first_nil)
  have values : OpensClause [.VALUES] (writeData ns 0 q.values ++ []).first :=
    opensClause_values ends q.values
  have behind : OpensClause [.GROUP, .HAVING, .ORDER, .LIMIT, .OFFSET, .VALUES]
      (modifierLines ns 0 q ++ writeData ns 0 q.values ++ []).first := by
    rw [List.append_assoc]
    exact opensClause_modifiers values q
  have lines : (q.write ns 0).text =
      bodyLines ns 0 q ++ (modifierLines ns 0 q ++ writeData ns 0 q.values) := by
    rw [text_writeQuery, bodyLines, List.append_assoc, List.append_assoc]
  have whole := @assemble_rewrite q none names
  have tail : Fares (do
      let values ← trailingValues ns
      endOfText
      let span : Span := ⟨0, ← position⟩
      pure (⟨ns, assemble (q.rewrite reread).body.form (q.rewrite reread).body.dataset
        (q.rewrite reread).body.root (q.rewrite reread).modifiers none values span⟩ : QueryUnit))
      (writeData ns 0 q.values) True ⟨ns, q.rewrite reread⟩ [] := by
    refine (fares_trailingValues hns table ends).bind_pure ?_
    rw [bind_eq_of_ok endOfText_before, bind_eq_of_ok (position_before []), body_rewrite]
    exact congrArg (fun q => Except.ok (QueryUnit.mk ns q, before [])) whole
  rw [lines]
  refine Reads.congr (g := q.BodyFits maxNesting ∧ q.ModifiersFit maxNesting ∧ True) ?_ ?_
  · exact Fares.bind (fares_body hns h reads behind)
      (Fares.bind (fares_modifiers hns h reads values) tail)
  · rw [Query.fits_iff, Query.BodyFits, Query.ModifiersFit]
    tauto

end Whole

end Grammar

end SparqlMetrics
