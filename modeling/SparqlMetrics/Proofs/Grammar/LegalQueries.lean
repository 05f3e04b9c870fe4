import SparqlMetrics.Proofs.Grammar.LegalExpressions

/-!
# Queries as they are read

What the readers of clauses, groups and whole queries yield. A level is legal when the one inside it
is, so every level is, by induction on the nesting that is still allowed. Main statements:
`QueryUnit.legal_of_parse` and, from it, the well-formedness of every tree that is read.
-/
namespace SparqlMetrics

def Projection.Legal (p : Projection) : Prop :=
  IsVariableName p.name ∧ ∀ e, p.value = some e → e.Everywhere legalChecks

def GroupCondition.Legal (c : GroupCondition) : Prop :=
  c.value.Everywhere legalChecks ∧ ∀ name, c.name = some name → IsVariableName name

def Form.FullyLegal (f : Form) : Prop :=
  f.Legal ∧ f.Everywhere legalChecks ∧
    ∀ template, f = .construct template → ∀ t ∈ template, t.IsWellFormed

namespace Grammar

open SparqlMetrics.Parser

abbrev LegalGroup (kind : GroupKind) (g : Group) : Prop :=
  g.Everywhere legalChecks ∧ g.kind = kind

structure Bounds.Legal (b : Bounds) : Prop where
  limit : ∀ count, b.limit = some count → IsCount count
  offset : ∀ count, b.offset = some count → IsCount count

structure Modifiers.Legal (m : Modifiers) : Prop where
  groupBy : ∀ c ∈ m.groupBy, c.Legal
  having : ∀ e ∈ m.having, LegalExpression e
  orderBy : ∀ c ∈ m.orderBy, LegalExpression c.value
  bounds : m.bounds.Legal

variable {ns : Namespaces} {level : Level}

theorem yields_namedProjection (h : level.Legal) :
    Yields (namedProjection level) Projection.Legal :=
  yields_position.bind fun _ _ => yields_skip.bind fun _ _ => (yields_expression h).bind fun _ hv =>
    (yields_keyword _ _).bind fun _ _ => (yields_variableName _).bind fun _ hname =>
      (yields_mark _ _).bind fun _ _ => yields_position.bind fun _ _ =>
        yields_pure ⟨hname, fun _ same => Option.some.inj same ▸ hv⟩

theorem yields_projection? (h : level.Legal) :
    Yields (projection? level) (IfSome Projection.Legal) :=
  yields_token.bind fun t spelled => by
    split
    · next same =>
      rw [same] at spelled
      exact yields_skip.bind fun _ _ => yields_pure (ifSome_some ⟨spelled, nofun⟩)
    · exact (yields_namedProjection h).some
    · exact yields_none

theorem yields_selectModifier : Yields selectModifier fun _ => True :=
  (yields_tryKeyword _).bind fun _ _ => by
    split
    · exact yields_pure trivial
    · exact (yields_tryKeyword _).bind fun _ _ => by
        split
        · exact yields_pure trivial
        · exact yields_pure trivial

def IsSelection (f : Form) : Prop := ∃ modifier everything items, f = .select modifier everything items

theorem yields_selectClause (h : level.Legal) :
    Yields (selectClause level) fun f => f.FullyLegal ∧ IsSelection f :=
  yields_skip.bind fun _ _ => yields_selectModifier.bind fun _ _ => (yields_tryMark _).bind
    fun _ _ => by
      split
      · exact yields_pure ⟨⟨⟨by simp, by simp⟩, trivial, nofun⟩, _, _, _, rfl⟩
      · refine (yields_projection? h).many.bind fun items hitems => ?_
        split
        · exact yields_expected _
        · next nonempty =>
          refine yields_pure ⟨⟨⟨by simpa using nonempty, fun item mem => (hitems item mem).1⟩, ?_,
            nofun⟩, _, _, _, rfl⟩
          exact Projection.everywhereAll_iff.mpr fun item mem => (hitems item mem).2

theorem yields_templateTriples? (h : level.Legal) (awaited : Bool) :
    Yields (templateTriples? level awaited) (IfSome fun r => ∀ e ∈ r.2, e.IsStatement) := by
  unfold templateTriples?
  refine (yields_isAt _).bind fun _ _ => ?_
  split
  · exact yields_none
  · refine Yields.bind (P := fun _ => True) ?_ fun here _ => ?_
    · exact yields_lexeme.bind fun _ _ => yields_followingLexeme.bind fun _ _ => yields_pure trivial
    split
    · exact (yields_triplesSameSubject h).bind fun _ hes => (yields_tryMark _).bind fun _ _ =>
        yields_pure (ifSome_some hes)
    · exact yields_expected _

theorem yields_templateLoop (h : level.Legal) :
    Yields (repeatFrom (fun (state : Bool × List Element) => do
      match ← templateTriples? level state.1 with
      | some (more, triples) => pure (some (more, state.2 ++ triples))
      | none => pure none) (true, [])) fun r => ∀ e ∈ r.2, e.IsStatement := by
  refine yields_repeatFrom (fun state hstate => ?_) (by simp)
  refine (yields_templateTriples? h state.1).bind fun found hfound => ?_
  split
  · refine yields_pure (ifSome_some fun e he => ?_)
    exact (List.mem_append.mp he).elim (hstate e) (hfound _ rfl e)
  · exact yields_none

theorem yields_template (h : level.Legal) :
    Yields (template level) (∀ e ∈ ·, e.IsStatement) :=
  (yields_templateLoop h).bind fun _ hes => (yields_mark _ _).bind fun _ _ => yields_pure hes

/-- A term that may be described or name a graph. -/
abbrev IsIriOrVar (t : Term) : Prop :=
  t.node.Legal true ∧ (t.node.isIri = true ∨ t.node.isVar = true)

theorem yields_describeTarget? (h : ns.Legal) :
    Yields (describeTarget? ns) (IfSome IsIriOrVar) :=
  yields_lexeme.bind fun _ _ => by
    split
    · exact (yields_varOrIri h).some
    · exact (yields_varOrIri h).some
    · exact (yields_varOrIri h).some
    · exact yields_none

theorem yields_describeClause (h : ns.Legal) : Yields (describeClause ns) Form.FullyLegal :=
  yields_skip.bind fun _ _ => (yields_tryMark _).bind fun _ _ => by
    split
    · exact yields_pure ⟨⟨by simp, by simp⟩, by simp [Form.Everywhere], nofun⟩
    · refine (yields_describeTarget? h).many.bind fun targets htargets => ?_
      split
      · exact yields_expected _
      · next nonempty =>
        exact yields_pure ⟨⟨by simpa using nonempty, fun t mem => (htargets t mem).2⟩,
          fun t mem => (htargets t mem).1, nofun⟩

theorem yields_datasetClause? (h : ns.Legal) :
    Yields (datasetClause? ns) (IfSome fun clause => Iri.hasScheme clause.iri = true) :=
  (yields_tryKeyword _).bind fun _ _ => by
    split
    · exact (yields_tryKeyword _).bind fun _ _ => (yields_resolvedIri h).bind fun _ absolute =>
        yields_skip.bind fun _ _ => yields_pure (ifSome_some absolute)
    · exact yields_none

theorem yields_plainGroup (h : level.Legal) : Yields (level.group .group) (LegalGroup .group) :=
  h.group .group trivial trivial (by simp)

theorem yields_whereClause (h : level.Legal) : Yields (whereClause level) (LegalGroup .group) :=
  (yields_tryKeyword _).bind fun _ _ => (yields_isAt _).bind fun _ _ => by
    split
    · exact yields_plainGroup h
    · exact yields_expected _

/-- A variable is a condition. -/
theorem yieldsAt_variableCondition (name : Text) :
    YieldsAt (.variableName name) (variableCondition ns) LegalExpression :=
  YieldsAt.bind (yieldsAt_variable name) fun t ht => by
    obtain ⟨⟨node, span⟩, rfl, spelled⟩ := t, ht
    exact yields_pure ⟨⟨trivial, spelled, rfl⟩, spelled⟩

theorem yields_conditionName? : Yields conditionName? (IfSome IsVariableName) :=
  (yields_tryKeyword _).bind fun _ _ => by
    split
    · exact (yields_variableName _).some
    · exact yields_none

theorem yields_groupCondition? (h : level.Legal) :
    Yields (groupCondition? level) (IfSome GroupCondition.Legal) :=
  yields_lexeme_bind fun here _ => by
    split
    · exact YieldsAt.bind (yieldsAt_variableCondition _) fun value hv =>
        yields_pure (ifSome_some ⟨hv, nofun⟩)
    · exact Yields.at (yields_skip.bind fun _ _ => (yields_expression h).bind fun value hv =>
        yields_conditionName?.bind fun name hname => (yields_mark _ _).bind fun _ _ =>
          yields_pure (ifSome_some ⟨hv, hname⟩)) _
    · refine Yields.at (yields_atConstraint.bind fun _ _ => ?_) _
      split
      · exact (yields_constraint h).bind fun value hv =>
          yields_pure (ifSome_some ⟨hv, nofun⟩)
      · exact yields_none

theorem yields_groupClause (h : level.Legal) :
    Yields (groupClause level) (∀ c ∈ ·, c.Legal) :=
  (yields_tryKeyword _).bind fun _ _ => by
    split
    · refine (yields_keyword _ _).bind fun _ _ => (yields_groupCondition? h).many.bind
        fun conditions hc => ?_
      split
      · exact yields_expected _
      · exact yields_pure hc
    · exact yields_pure (by simp)

theorem yields_havingClause (h : level.Legal) :
    Yields (havingClause level) (∀ e ∈ ·, LegalExpression e) :=
  (yields_tryKeyword _).bind fun _ _ => by
    split
    · refine Yields.bind (Yields.many (P := LegalExpression) ?_) fun conditions hc => ?_
      · refine yields_atConstraint.bind fun _ _ => ?_
        split
        · exact (yields_constraint h).some
        · exact yields_none
      · split
        · exact yields_expected _
        · exact yields_pure hc
    · exact yields_pure (by simp)

theorem yields_orderCondition? (h : level.Legal) :
    Yields (orderCondition? level) (IfSome fun c => LegalExpression c.value) :=
  yields_lexeme_bind fun here _ => by
    split
    · exact Yields.at (yields_skip.bind fun _ _ => (yields_bracketedExpression h).bind
        fun value hv => yields_pure (ifSome_some (x := OrderCondition.mk value .ascending) hv)) _
    · exact Yields.at (yields_skip.bind fun _ _ => (yields_bracketedExpression h).bind
        fun value hv => yields_pure (ifSome_some (x := OrderCondition.mk value .descending) hv)) _
    · exact YieldsAt.bind (yieldsAt_variableCondition _) fun value hv =>
        yields_pure (ifSome_some hv)
    · refine Yields.at (yields_atConstraint.bind fun _ _ => ?_) _
      split
      · exact (yields_constraint h).bind fun value hv => yields_pure (ifSome_some hv)
      · exact yields_none

theorem yields_orderClause (h : level.Legal) :
    Yields (orderClause level) (∀ c ∈ ·, LegalExpression c.value) :=
  (yields_tryKeyword _).bind fun _ _ => by
    split
    · refine (yields_keyword _ _).bind fun _ _ => (yields_orderCondition? h).many.bind
        fun conditions hc => ?_
      split
      · exact yields_expected _
      · exact yields_pure hc
    · exact yields_pure (by simp)

theorem yields_count (clause : CountClause) : Yields (count clause) IsCount :=
  yields_lexeme.bind fun _ _ => by
    split
    · split
      · next fits => exact yields_skip.bind fun _ _ => yields_pure ⟨by omega, fits⟩
      · exact yields_fail _
    · exact yields_expected _

theorem yields_countOnce (clause : CountClause) (known : Option Int) :
    Yields (countOnce clause known) IsCount := by
  unfold countOnce
  split
  · exact yields_fail _
  · exact yields_skip.bind fun _ _ => yields_count clause

theorem yields_bound? (bounds : Bounds) (hb : bounds.Legal) :
    Yields (bound? bounds) (IfSome Bounds.Legal) :=
  (yields_isAtKeyword _).bind fun _ _ => by
    split
    · exact (yields_countOnce _ _).bind fun n hn => yields_pure (ifSome_some
        ⟨fun _ same => Option.some.inj same ▸ hn, hb.offset⟩)
    · refine (yields_isAtKeyword _).bind fun _ _ => ?_
      split
      · exact (yields_countOnce _ _).bind fun n hn => yields_pure (ifSome_some
          ⟨hb.limit, fun _ same => Option.some.inj same ▸ hn⟩)
      · exact yields_none

theorem Bounds.legal_none : Bounds.Legal {} where
  limit := by simp
  offset := by simp

theorem yields_modifiers (h : level.Legal) : Yields (modifiers level) Modifiers.Legal :=
  (yields_groupClause h).bind fun _ hg => (yields_havingClause h).bind fun _ hh =>
    (yields_orderClause h).bind fun _ ho =>
      (yields_repeatFrom yields_bound? Bounds.legal_none).bind fun _ hb =>
        yields_pure ⟨hg, hh, ho, hb⟩

theorem yields_trailingValues (h : ns.Legal) :
    Yields (trailingValues ns) (tableEverywhere legalChecks) :=
  (yields_tryKeyword _).bind fun _ _ => by
    split
    · exact (yields_inlineData h).map fun _ hd => hd
    · exact yields_pure trivial

/-- The query that legal clauses make up is legal. -/
theorem everywhere_assemble {form : Form} {dataset : List DatasetClause} {root : Group}
    {m : Modifiers} {inScope values : Option InlineData} (span : Span) (hf : form.FullyLegal)
    (hd : ∀ clause ∈ dataset, Iri.hasScheme clause.iri = true) (hr : LegalGroup .group root)
    (hm : m.Legal) (hv : tableEverywhere legalChecks values) :
    (assemble form dataset root m inScope values span).Everywhere legalChecks :=
  ⟨⟨hf.2.2, hf.1, hr.2, hd, fun c hc => (hm.groupBy c hc).2, hm.bounds.limit, hm.bounds.offset⟩,
    hf.2.1, hr.1, GroupCondition.everywhereAll_iff.mpr fun c hc => (hm.groupBy c hc).1,
    Expression.everywhereAll_iff.mpr hm.having, OrderCondition.everywhereAll_iff.mpr hm.orderBy, hv⟩

theorem yields_subSelect (h : level.Legal) :
    Yields (subSelect level) fun q => q.Everywhere legalChecks ∧ q.IsSubSelect :=
  yields_position.bind fun _ _ => (yields_selectClause h).bind fun _ hf =>
    (yields_whereClause h).bind fun _ hr => (yields_modifiers h).bind fun _ hm =>
      (yields_trailingValues h.namespaces).bind fun _ hv => yields_position.bind fun _ _ =>
        yields_pure ⟨everywhere_assemble _ hf.1 (by simp) hr hm hv, hf.2, rfl, rfl⟩

/-- A draft whose members are legal, a sub-query among them only when it is all there is. -/
structure Draft.Legal (d : Draft) : Prop where
  elements : ∀ e ∈ d.elements, e.Everywhere legalChecks
  children : ∀ g ∈ d.children, g.Everywhere legalChecks
  data : tableEverywhere legalChecks d.data
  alone : (∀ e ∈ d.elements, e.isSubquery = false) ∨ d.elements.length = 1 ∧ d.children = [] ∧
    d.data = none

/-- A draft made of statements, tables and groups. -/
structure Draft.Plain (d : Draft) : Prop where
  elements : ∀ e ∈ d.elements, e.IsStatement
  children : ∀ g ∈ d.children, g.Everywhere legalChecks
  data : tableEverywhere legalChecks d.data

theorem Draft.Plain.legal {d : Draft} (h : d.Plain) : d.Legal :=
  ⟨fun e he => (h.elements e he).1, h.children, h.data, .inl fun e he => (h.elements e he).2⟩

theorem Draft.Plain.addElements {d : Draft} (h : d.Plain) {elements : List Element}
    (he : ∀ e ∈ elements, e.IsStatement) : (d.addElements elements).Plain :=
  ⟨fun e mem => (List.mem_append.mp mem).elim (h.elements e) (he e), h.children, h.data⟩

theorem Draft.Plain.addChild {d : Draft} (h : d.Plain) {child : Group}
    (hc : child.Everywhere legalChecks) : (d.addChild child).Plain := by
  refine ⟨h.elements, fun g mem => ?_, h.data⟩
  rcases List.mem_append.mp mem with mem | mem
  · exact h.children g mem
  · rw [List.mem_singleton.mp mem]
    exact hc

theorem Draft.Plain.addData {d : Draft} (h : d.Plain) {data : InlineData}
    (hd : data.Everywhere legalChecks) : (d.addData data).Plain := by
  unfold Draft.addData
  split
  · exact ⟨h.elements, h.children, hd⟩
  · exact h.addChild ⟨⟨nofun, trivial, .inl (by simp), nofun⟩, trivial, trivial, trivial, hd⟩

theorem yields_moreAlternatives (h : level.Legal) :
    Yields (moreAlternatives level) (∀ g ∈ ·, LegalGroup .group g) := by
  refine Yields.many ?_
  refine (yields_tryKeyword _).bind fun _ _ => ?_
  split
  · exact (yields_plainGroup h).some
  · exact yields_none

theorem yields_groupOrUnion (h : level.Legal) :
    Yields (groupOrUnion level) (·.Everywhere legalChecks) :=
  (yields_plainGroup h).bind fun first hfirst => (yields_moreAlternatives h).bind fun more hmore => by
    split
    · exact yields_pure hfirst.1
    · next nonempty =>
      have all : ∀ g ∈ first :: more, LegalGroup .group g :=
        List.forall_mem_cons.mpr ⟨hfirst, hmore⟩
      have two : 2 ≤ (first :: more).length := by
        cases more with
        | nil => simp at nonempty
        | cons => simp
      exact yields_position.bind fun _ _ => yields_pure ⟨⟨fun _ => ⟨rfl, rfl, two⟩, trivial,
        .inl (by simp), fun _ g mem => (all g mem).2⟩, trivial, trivial,
        Group.everywhereAll_iff.mpr fun g mem => (all g mem).1, trivial⟩

theorem yields_filter (h : level.Legal) : Yields (filter level) Element.IsStatement :=
  yields_position.bind fun _ _ => yields_skip.bind fun _ _ => (yields_constraint h).bind fun _ hc =>
    yields_position.bind fun _ _ => yields_pure ⟨⟨⟨trivial, trivial⟩, hc⟩, rfl⟩

theorem yields_bindTarget :
    Yields (bindTarget ns) fun t => t.node.Legal true ∧ t.node.isVar = true :=
  yields_lexeme_bind fun here _ => by
    split
    · intro c t c' hc hhere ht
      obtain ⟨⟨same, spelled⟩, hc'⟩ := yieldsAt_variable _ c t c' hc hhere ht
      refine ⟨?_, hc'⟩
      simp only [same]
      exact ⟨spelled, rfl⟩
    · exact (yields_expected _).at _

theorem yields_binding (h : level.Legal) : Yields (binding level) Element.IsStatement :=
  yields_position.bind fun _ _ => yields_skip.bind fun _ _ => (yields_mark _ _).bind fun _ _ =>
    (yields_expression h).bind fun _ hv => (yields_keyword _ _).bind fun _ _ =>
      yields_bindTarget.bind fun _ ht => (yields_mark _ _).bind fun _ _ =>
        yields_position.bind fun _ _ => yields_pure ⟨⟨⟨trivial, ht.2⟩, hv, ht.1⟩, rfl⟩

theorem yields_namedGroup (h : level.Legal) {kind : Term → GroupKind}
    (hk : ∀ t, IsIriOrVar t →
      (kind t).Legal ∧ (kind t).Everywhere legalChecks ∧ kind t ≠ .union) :
    Yields (namedGroup level kind) (·.Everywhere legalChecks) :=
  (yields_varOrIri h.namespaces).bind fun name hname => by
    obtain ⟨legal, everywhere, plain⟩ := hk name hname
    exact (h.group (kind name) legal everywhere plain).mono fun _ hg => hg.1

theorem yields_serviceGroup (h : level.Legal) :
    Yields (serviceGroup level) (·.Everywhere legalChecks) :=
  (yields_tryKeyword _).bind fun _ _ => yields_namedGroup h fun t ht =>
    ⟨⟨t, rfl, ht.2⟩, ht.1, by simp⟩

theorem yields_atTriples : Yields atTriples fun _ => True :=
  yields_lexeme.bind fun _ _ => yields_followingLexeme.bind fun _ _ => yields_pure trivial

theorem yields_triplesBlock (h : level.Legal) :
    Yields (triplesBlock level) (∀ e ∈ ·, e.IsStatement) :=
  yields_lexeme.bind fun _ _ => yields_atTriples.bind fun _ _ => by
    split
    · refine (yields_triplesSameSubject h).bind fun _ hes => (yields_tryMark _).bind fun _ _ => ?_
      split
      · exact yields_pure hes
      · refine yields_atTriples.bind fun _ _ => ?_
        split
        · exact yields_expected _
        · exact yields_pure hes
    · exact yields_fail _

theorem yields_member? (h : level.Legal) (d : Draft) (hd : d.Plain) :
    Yields (member? level d) (IfSome Draft.Plain) := by
  have child : ∀ {p : Parser Group}, Yields p (·.Everywhere legalChecks) →
      Yields (do return some (d.addChild (← p))) (IfSome Draft.Plain) :=
    fun hp => hp.bind fun g hg => yields_pure (ifSome_some (hd.addChild hg))
  have element : ∀ {p : Parser Element}, Yields p Element.IsStatement →
      Yields (do return some (d.addElements [← p])) (IfSome Draft.Plain) :=
    fun hp => hp.bind fun e he =>
      yields_pure (ifSome_some (hd.addElements (List.forall_mem_singleton.mpr he)))
  refine yields_lexeme.bind fun here _ => ?_
  split
  · exact yields_none
  · exact yields_none
  · exact yields_skip.bind fun _ _ => yields_pure (ifSome_some hd)
  · exact child (yields_groupOrUnion h)
  · exact yields_skip.bind fun _ _ =>
      child ((h.group .optional trivial trivial (by simp)).mono fun _ hg => hg.1)
  · exact yields_skip.bind fun _ _ =>
      child ((h.group .minus trivial trivial (by simp)).mono fun _ hg => hg.1)
  · exact yields_skip.bind fun _ _ =>
      child (yields_namedGroup h fun t ht => ⟨⟨t, rfl, ht.2⟩, ht.1, by simp⟩)
  · exact yields_skip.bind fun _ _ => child (yields_serviceGroup h)
  · exact element (yields_filter h)
  · exact element (yields_binding h)
  · exact yields_skip.bind fun _ _ => (yields_inlineData h.namespaces).bind fun _ hdata =>
      yields_pure (ifSome_some (hd.addData hdata))
  · exact (yields_triplesBlock h).bind fun _ hes =>
      yields_pure (ifSome_some (hd.addElements hes))

theorem yields_groupContent (h : level.Legal) : Yields (groupContent level) Draft.Legal :=
  (yields_isAtKeyword _).bind fun _ _ => by
    split
    · refine yields_position.bind fun _ _ => (yields_subSelect h).bind fun q hq =>
        yields_position.bind fun _ _ => yields_pure ⟨?_, by simp, trivial, .inr ⟨rfl, rfl, rfl⟩⟩
      exact List.forall_mem_singleton.mpr ⟨⟨trivial, q, rfl, hq.2⟩, hq.1⟩
    · have plain : Draft.Plain {} := ⟨by simp, by simp, trivial⟩
      exact (yields_repeatFrom (yields_member? h) plain).mono fun _ hd => hd.legal

theorem yields_bracedGroup (h : level.Legal) {kind : GroupKind} (legal : kind.Legal)
    (everywhere : kind.Everywhere legalChecks) (plain : kind ≠ .union) :
    Yields (bracedGroup level kind) (LegalGroup kind) :=
  yields_position.bind fun _ _ => (yields_mark _ _).bind fun _ _ =>
    (yields_groupContent h).bind fun _ hd => (yields_mark _ _).bind fun _ _ =>
      yields_position.bind fun _ _ => yields_pure ⟨⟨⟨fun same => absurd same plain, legal, hd.alone,
        fun same => absurd same plain⟩, everywhere, Element.everywhereAll_iff.mpr hd.elements,
        Group.everywhereAll_iff.mpr hd.children, hd.data⟩, rfl⟩

theorem legal_ofAllowance (h : ns.Legal) (allowance : Nat) :
    (Level.ofAllowance ns allowance).Legal := by
  induction allowance with
  | zero =>
      exact ⟨h, yields_fail _, fun _ _ _ _ => yields_fail _, yields_fail _, yields_fail _⟩
  | succ allowance inner =>
      exact ⟨h, yields_operandWithin inner, fun _ => yields_bracedGroup inner,
        yields_bracketedPath inner, yields_bracketedBlankNode inner⟩

theorem declaredLabel?_spelled {here : Lexeme} (spelled : here.Spelled) {label : Text}
    (h : declaredLabel? here = some label) : Byte.colon ∉ label → IsPrefixLabel label := by
  intro free
  unfold declaredLabel? at h
  split at h
  · exact Option.some.inj h ▸ spelled
  · split at h
    · exact absurd (Option.some.inj h ▸ by simp) free
    · cases h
  · cases h

theorem yields_declaredLabel :
    Yields declaredLabel fun label => Byte.colon ∉ label → IsPrefixLabel label :=
  yields_lexeme.bind fun here spelled => by
    split
    · next found =>
      exact yields_skip.bind fun _ _ => yields_pure (declaredLabel?_spelled spelled found)
    · exact yields_expected _

/-- The IRI of a declaration is absolute and can be written in angle brackets. -/
theorem yields_declaredIri (h : ns.Legal) (missing : Malformed) :
    Yields (declaredIri ns missing) fun iri => Iri.hasScheme iri = true ∧ IsCleanIri iri :=
  yields_lexeme_bind fun here spelled => by
    split
    · next reference =>
      have resolved : YieldsAt (.iri reference) (resolvedIri ns)
          fun iri => Iri.hasScheme iri = true ∧ IsCleanIri iri := by
        refine YieldsAt.bind_token fun t same clean => ?_
        rw [same]
        dsimp only
        split
        · next found =>
          exact Yields.at (yields_pure ⟨h.absolute_resolve? found, h.clean_resolve? clean found⟩) _
        · exact (yields_throw _).at _
      exact YieldsAt.bind resolved fun _ hiri => yields_skip.bind fun _ _ => yields_pure hiri
    · exact (yields_fail _).at _

theorem yields_declaration? (ns : Namespaces) (h : ns.Legal) :
    Yields (declaration? ns) (IfSome Namespaces.Legal) :=
  (yields_tryKeyword _).bind fun _ _ => by
    split
    · exact (yields_declaredIri h _).bind fun _ hiri =>
        yields_pure (ifSome_some (h.setBase hiri.1 hiri.2))
    · refine (yields_tryKeyword _).bind fun _ _ => ?_
      split
      · exact yields_declaredLabel.bind fun _ hlabel => (yields_declaredIri h _).bind fun _ hiri =>
          yields_pure (ifSome_some (h.declare hlabel hiri.1 hiri.2))
      · exact yields_none

theorem yields_prologue : Yields prologue Namespaces.Legal :=
  yields_repeatFrom yields_declaration? Namespaces.legal_empty

structure Body.Legal (b : Body) : Prop where
  form : b.form.FullyLegal
  dataset : ∀ clause ∈ b.dataset, Iri.hasScheme clause.iri = true
  root : LegalGroup .group b.root

theorem yields_datasetClauses (h : ns.Legal) :
    Yields (datasetClauses ns) (∀ clause ∈ ·, Iri.hasScheme clause.iri = true) :=
  (yields_datasetClause? h).many

/-- The triples of statements, each with a term as its predicate. -/
theorem yields_templateOf {elements : List Element} (h : ∀ e ∈ elements, e.IsStatement) :
    Yields (templateOf elements) (∀ t ∈ ·, t.IsWellFormed ∧ t.Everywhere legalChecks) := by
  induction elements with
  | nil => exact yields_pure (by simp)
  | cons e rest ih =>
      rw [List.forall_mem_cons] at h
      cases e with
      | triple t =>
          exact (ih h.2).bind fun more hmore =>
            yields_pure (List.forall_mem_cons.mpr ⟨⟨h.1.1.1.1, h.1.1.2⟩, hmore⟩)
      | _ => exact yields_fail _

theorem fullyLegal_construct {template : List Triple}
    (h : ∀ t ∈ template, t.IsWellFormed ∧ t.Everywhere legalChecks) :
    (Form.construct template).FullyLegal := by
  refine ⟨trivial, fun t mem => (h t mem).2, fun template' same => ?_⟩
  cases same
  exact fun t mem => (h t mem).1

theorem yields_selectBody (h : level.Legal) : Yields (selectBody level) Body.Legal :=
  (yields_selectClause h).bind fun _ hf => (yields_datasetClauses h.namespaces).bind fun _ hd =>
    (yields_whereClause h).bind fun _ hr => yields_pure ⟨hf.1, hd, hr⟩

theorem yields_askBody (h : level.Legal) : Yields (askBody level) Body.Legal :=
  yields_skip.bind fun _ _ => (yields_datasetClauses h.namespaces).bind fun _ hd =>
    (yields_whereClause h).bind fun _ hr =>
      yields_pure ⟨⟨trivial, trivial, nofun⟩, hd, hr⟩

theorem legalGroup_empty : LegalGroup .group (.empty .group) :=
  ⟨⟨⟨nofun, trivial, .inl (by simp), nofun⟩, trivial, trivial, trivial, trivial⟩, rfl⟩

theorem yields_describeBody (h : level.Legal) : Yields (describeBody level) Body.Legal :=
  (yields_describeClause h.namespaces).bind fun _ hf =>
    (yields_datasetClauses h.namespaces).bind fun _ hd => (yields_isAtKeyword _).bind fun _ _ =>
      (yields_isAt _).bind fun _ _ => by
        split
        · exact (yields_whereClause h).bind fun _ hr => yields_pure ⟨hf, hd, hr⟩
        · exact yields_pure ⟨hf, hd, legalGroup_empty⟩

theorem yields_constructBody (h : level.Legal) : Yields (constructBody level) Body.Legal :=
  yields_skip.bind fun _ _ => (yields_template h).bind fun _ hes =>
    (yields_datasetClauses h.namespaces).bind fun _ hd => (yields_whereClause h).bind fun _ hr =>
      (yields_templateOf hes).bind fun _ ht => yields_pure ⟨fullyLegal_construct ht, hd, hr⟩

theorem yields_constructWhereBody (h : level.Legal) :
    Yields (constructWhereBody level) Body.Legal :=
  (yields_datasetClauses h.namespaces).bind fun _ hd => (yields_keyword _ _).bind fun _ _ =>
    yields_position.bind fun _ _ => (yields_mark _ _).bind fun _ _ =>
      (yields_template h).bind fun _ hes => yields_position.bind fun _ _ =>
        (yields_templateOf hes).bind fun _ ht => yields_pure ⟨fullyLegal_construct ht, hd,
          ⟨⟨nofun, trivial, .inl fun e he => (hes e he).2, nofun⟩, trivial,
            Element.everywhereAll_iff.mpr fun e he => (hes e he).1, trivial, trivial⟩, rfl⟩

theorem yields_body (h : level.Legal) : Yields (body level) Body.Legal :=
  yields_lexeme.bind fun _ _ => by
    split
    · exact yields_selectBody h
    · refine yields_skip.bind fun _ _ => (yields_isAt _).bind fun _ _ => ?_
      split
      · exact yields_constructBody h
      · exact yields_constructWhereBody h
    · exact yields_describeBody h
    · exact yields_askBody h
    · exact yields_expected _

theorem yields_endOfText : Yields endOfText fun _ => True :=
  yields_lexeme.bind fun _ _ => by
    split
    · exact yields_pure trivial
    · exact yields_fail _

end Grammar

/-- A query that is read: legal throughout, its result variables those of its form and pattern. -/
structure QueryUnit.Legal (unit : QueryUnit) : Prop where
  namespaces : unit.namespaces.Legal
  query : unit.query.Everywhere legalChecks
  resultVariables :
    unit.query.resultVariables = unit.query.form.resultVariables unit.query.root none

namespace Grammar

open SparqlMetrics.Parser

theorem yields_queryUnit : Yields queryUnit QueryUnit.Legal :=
  yields_prologue.bind fun _ hns => by
    have level := legal_ofAllowance hns maxNesting
    exact (yields_body level).bind fun _ hb => (yields_modifiers level).bind fun _ hm =>
      (yields_trailingValues hns).bind fun _ hv => yields_endOfText.bind fun _ _ =>
        yields_position.bind fun _ _ => yields_pure
          ⟨hns, everywhere_assemble _ hb.form hb.dataset hb.root hm hv, rfl⟩

end Grammar

namespace QueryUnit

/-- Every query that is read is legal. -/
theorem legal_of_parse {s : Text} {unit : QueryUnit} (h : parse s = .ok unit) : unit.Legal := by
  unfold parse at h
  split at h
  · next read =>
    rw [← Except.ok.inj h]
    exact (Grammar.yields_queryUnit _ _ _ (Cursor.spelled_ofStream s) read).1
  · cases h

/-- Every tree that is read has at each node the parts that belong to it, in its sub-queries and the
patterns of its EXISTS tests as well. -/
theorem wellFormed_of_parse {s : Text} {unit : QueryUnit} (h : parse s = .ok unit) :
    unit.query.Everywhere wellFormedChecks :=
  Query.everywhere_mono legalChecks_implies _ (legal_of_parse h).query

theorem exists_of_isOk {s : Text} (h : (parse s).isOk = true) : ∃ unit, parse s = .ok unit := by
  cases read : parse s with
  | ok unit => exact ⟨unit, rfl⟩
  | error e => simp [read, Except.isOk, Except.toBool] at h

/-- A text with a path, a negated set, a union, a table, a sub-query and an EXISTS test. -/
def sampleQuery : Text :=
  utf8 ("SELECT (COUNT(*) AS ?n) WHERE \x7b \x7b ?s !(a|^<http://e/p>)* ?o \x7d UNION " ++
    "\x7b SELECT ?s WHERE \x7b VALUES (?s ?t) \x7b (1 UNDEF) \x7d \x7d \x7d " ++
    "FILTER (NOT EXISTS \x7b ?s ?p -1 \x7d && ?s IN (\"x\"@en, <http://e/f>(?s))) \x7d")

theorem wellFormed_sampleQuery :
    ∃ unit, parse sampleQuery = .ok unit ∧ unit.query.Everywhere wellFormedChecks := by
  obtain ⟨unit, read⟩ := exists_of_isOk (s := sampleQuery) (by decide +kernel)
  exact ⟨unit, read, wellFormed_of_parse read⟩

end QueryUnit

end SparqlMetrics
