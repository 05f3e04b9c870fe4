import SparqlMetrics.Proofs.Reading.Clauses

/-!
# Reading trees

Every part of a printable tree is read back from its written form: by induction on the tree, one case
for each kind of node, each of them read when its parts are. What is read in place of a tree is the
tree with its elements drifted, and it is read exactly where the tree fits.
-/
namespace SparqlMetrics

namespace Grammar

section Nodes
variable {ns : Namespaces} {indent : Nat} {args : List Expression} {span : Span}

theorem readsExpression_unaryNode {op : Text}
    (h : (Expression.unary op args span).IsWellFormed)
    (reads : ∀ e ∈ args, ReadsExpression ns indent e) :
    ReadsExpression ns indent (.unary op args span) := by
  obtain ⟨known, one⟩ := h
  obtain ⟨m, hm, rfl⟩ := List.mem_map.mp known
  obtain ⟨operand, rfl⟩ := List.length_eq_one_iff.mp one
  exact readsExpression_unary hm (reads operand List.mem_cons_self)

theorem readsExpression_binaryNode {op : Text}
    (h : (Expression.binary op args span).IsWellFormed)
    (reads : ∀ e ∈ args, ReadsExpression ns indent e) :
    ReadsExpression ns indent (.binary op args span) := by
  obtain ⟨known, two⟩ := h
  obtain ⟨m, hm, rfl⟩ := List.mem_map.mp known
  obtain ⟨left, right, rfl⟩ := List.length_eq_two.mp two
  have hleft := reads left List.mem_cons_self
  have hright := reads right (List.mem_cons_of_mem _ List.mem_cons_self)
  by_cases relational : precedence m.text = comparisonPrecedence
  · exact readsExpression_comparison hm relational hleft hright
  · have isChain : isChainTier (precedence m.text) = true := by
      cases m <;> first | decide | exact absurd hm (by decide) | exact absurd (by decide) relational
    exact readsExpression_chain hm isChain hleft hright

theorem readsExpression_callNode (hns : ns.Labelled) {callee : Callee} {distinct : Bool}
    (h : (Expression.call callee distinct args span).IsWellFormed)
    (legal : (Expression.call callee distinct args span).Legal)
    (named : callee.Everywhere printableChecks)
    (reads : ∀ e ∈ args, ReadsExpression ns indent e) :
    ReadsExpression ns indent (.call callee distinct args span) := by
  cases callee with
  | builtin name =>
      obtain ⟨spelled, rfl⟩ := legal
      exact readsExpression_builtin spelled reads
  | iri function =>
      obtain ⟨node, functionSpan⟩ := function
      cases node with
      | iri iri => exact readsExpression_iriCall hns named.1 named.2 distinct reads
      | _ => cases h

theorem readsExpression_memberNode {negated : Bool}
    (h : (Expression.member negated args span).IsWellFormed)
    (reads : ∀ e ∈ args, ReadsExpression ns indent e) :
    ReadsExpression ns indent (.member negated args span) := by
  cases args with
  | nil => exact absurd rfl h
  | cons left items =>
      exact readsExpression_member (reads left List.mem_cons_self)
        fun e member => reads e (List.mem_cons_of_mem _ member)

end Nodes

/-- How an element is read: among the members of a group, or as the selection that is all of it. -/
structure ReadsElement (ns : Namespaces) (e : Element) : Prop where
  member : e.isSubquery = false → ∀ indent, ReadsMember ns indent (.element e)
  subSelect : ∀ q span, e = .subquery (some q) span → ∀ indent, ReadsSubSelect ns indent q

/-- How a group is read: what it holds, and the whole of it among the members of another group. -/
structure ReadsGroup (ns : Namespaces) (g : Group) : Prop where
  content : g.kind.isUnion = false → ∀ indent, ReadsContent ns indent g
  child : ∀ indent, ReadsMember ns indent (.child g)

section Groups
variable {ns : Namespaces}

theorem readsElement_sentence (hns : ns.Labelled) {e : Element} (h : e.isSentence = true)
    (printable : e.Everywhere printableChecks) : ReadsElement ns e where
  member _ indent := readsMember_sentence hns h printable
  subSelect := by
    rintro q span rfl
    cases h

theorem readsMember_of_parts (hns : ns.Labelled) {g : Group} (h : g.Everywhere printableChecks)
    (elements : ∀ e ∈ g.elements, ReadsElement ns e) (children : ∀ c ∈ g.children, ReadsGroup ns c)
    (noQuery : ∀ e ∈ g.elements, e.isSubquery = false) (indent : Nat) :
    ∀ m ∈ g.members, ReadsMember ns indent m := by
  obtain ⟨kind, es, cs, data, span⟩ := g
  obtain ⟨_, _, _, _, table⟩ := h
  intro m member
  simp only [Group.members, List.mem_append, List.mem_map, Option.mem_toList] at member
  rcases member with ⟨e, he, rfl⟩ | ⟨d, hd, rfl⟩ | ⟨c, hc, rfl⟩
  · exact (elements e he).member (noQuery e he) indent
  · cases hd
    exact readsMember_table hns table
  · exact (children c hc).child indent

/-- What a group holds: members that are no selections, or one selection alone. -/
theorem readsContent_of_parts (hns : ns.Labelled) {g : Group} (h : g.Everywhere printableChecks)
    (elements : ∀ e ∈ g.elements, ReadsElement ns e) (children : ∀ c ∈ g.children, ReadsGroup ns c)
    (indent : Nat) : ReadsContent ns indent g := by
  have plain := fun noQuery => readsContent_members noQuery
    (readsMember_of_parts hns h elements children noQuery indent)
  obtain ⟨kind, es, cs, data, span⟩ := g
  obtain ⟨⟨_, _, alone, _⟩, _, legal, _⟩ := h
  rcases alone with noQuery | ⟨one, rfl, rfl⟩
  · exact plain noQuery
  · obtain ⟨e, rfl⟩ := List.length_eq_one_iff.mp one
    cases isSubquery : e.isSubquery with
    | false => exact plain (by simpa using isSubquery)
    | true =>
        cases e with
        | subquery query querySpan =>
            have found : (Element.subquery query querySpan).Legal := by
              cases query <;> simp_all [printableChecks]
            obtain ⟨q, rfl, _⟩ := found
            exact readsContent_subSelect
              ((elements _ List.mem_cons_self).subSelect q querySpan rfl indent)
        | _ => cases isSubquery

/-- A group is read when its elements and its children are. -/
theorem readsGroup_of_parts (hns : ns.Labelled) {g : Group} (h : g.Everywhere printableChecks)
    (elements : ∀ e ∈ g.elements, ReadsElement ns e)
    (children : ∀ c ∈ g.children, ReadsGroup ns c) : ReadsGroup ns g where
  content _ indent := readsContent_of_parts hns h elements children indent
  child _ := readsMember_child hns h (fun _ => readsContent_of_parts hns h elements children _)
    fun a member plain => (children a member).content plain _

end Groups

section Trees
variable {ns : Namespaces}

mutual

/-- Every printable expression is read back. -/
theorem readsExpression_of_printable (hns : ns.Labelled) :
    ∀ e : Expression, e.Everywhere printableChecks → ∀ indent, ReadsExpression ns indent e
  | .term t span, ⟨⟨_, legal, noBlank⟩, _, clean⟩, indent =>
    readsExpression_term hns legal clean noBlank
  | .unary op args span, ⟨⟨formed, _⟩, hargs⟩, indent =>
    readsExpression_unaryNode formed fun e member => readsExpressions hns args hargs e member indent
  | .binary op args span, ⟨⟨formed, _⟩, hargs⟩, indent =>
    readsExpression_binaryNode formed fun e member => readsExpressions hns args hargs e member indent
  | .call callee distinct args span, ⟨⟨formed, legal⟩, named, hargs⟩, indent =>
    readsExpression_callNode hns formed legal named
      fun e member => readsExpressions hns args hargs e member indent
  | .aggregate name distinct star args separator span, ⟨⟨⟨shape, separated⟩, legal⟩, hargs⟩,
      indent =>
    readsExpression_aggregate legal shape separated
      fun e member => readsExpressions hns args hargs e member indent
  | .member negated args span, ⟨⟨formed, _⟩, hargs⟩, indent =>
    readsExpression_memberNode formed fun e member => readsExpressions hns args hargs e member indent
  | .exists negated none span, ⟨formed, _⟩, indent => by cases formed
  | .exists negated (some pattern) span, ⟨⟨_, kind⟩, hpattern⟩, indent =>
    readsExpression_exists kind
      ((readsGroup_of_printable hns pattern hpattern).content (by rw [kind]; rfl) _)

theorem readsExpressions (hns : ns.Labelled) :
    ∀ es : List Expression, Expression.EverywhereAll printableChecks es →
      ∀ e ∈ es, ∀ indent, ReadsExpression ns indent e
  | [], _ => nofun
  | e :: rest, ⟨he, hrest⟩ => List.forall_mem_cons.mpr
    ⟨readsExpression_of_printable hns e he, readsExpressions hns rest hrest⟩

/-- Every printable element is read back. -/
theorem readsElement_of_printable (hns : ns.Labelled) :
    ∀ e : Element, e.Everywhere printableChecks → ReadsElement ns e
  | .triple t, h => readsElement_sentence hns rfl h
  | .path subject p object span, h => readsElement_sentence hns rfl h
  | .filter condition span, ⟨_, hcondition⟩ =>
    ⟨fun _ indent => readsMember_filter (readsExpression_of_printable hns condition hcondition indent),
      nofun⟩
  | .subquery none span, ⟨⟨_, legal⟩, _⟩ => by
    obtain ⟨q, absurdity, _⟩ := legal
    cases absurdity
  | .subquery (some query) span, ⟨⟨⟨_, legal⟩, _⟩, hquery⟩ => by
    refine ⟨nofun, fun q span same indent => ?_⟩
    cases same
    obtain ⟨q, same, sub⟩ := legal
    cases same
    exact readsSubSelect hns hquery sub (readsParts_of_printable hns query hquery indent)
  | .bind value target span, ⟨⟨⟨_, isVar⟩, _⟩, hvalue, legal, _⟩ =>
    ⟨fun _ indent => readsMember_bind (readsExpression_of_printable hns value hvalue indent) isVar legal,
      nofun⟩

theorem readsElements (hns : ns.Labelled) :
    ∀ es : List Element, Element.EverywhereAll printableChecks es → ∀ e ∈ es, ReadsElement ns e
  | [], _ => nofun
  | e :: rest, ⟨he, hrest⟩ => List.forall_mem_cons.mpr
    ⟨readsElement_of_printable hns e he, readsElements hns rest hrest⟩

/-- Every printable group is read back. -/
theorem readsGroup_of_printable (hns : ns.Labelled) :
    ∀ g : Group, g.Everywhere printableChecks → ReadsGroup ns g
  | ⟨kind, elements, children, data, span⟩, h =>
    readsGroup_of_parts hns h (readsElements hns elements h.2.2.1)
      (readsGroups hns children h.2.2.2.1)

theorem readsGroups (hns : ns.Labelled) :
    ∀ gs : List Group, Group.EverywhereAll printableChecks gs → ∀ g ∈ gs, ReadsGroup ns g
  | [], _ => nofun
  | g :: rest, ⟨hg, hrest⟩ => List.forall_mem_cons.mpr
    ⟨readsGroup_of_printable hns g hg, readsGroups hns rest hrest⟩

theorem readsProjections (hns : ns.Labelled) :
    ∀ ps : List Projection, Projection.EverywhereAll printableChecks ps →
      ∀ p ∈ ps, ∀ e, p.value = some e → ReadsExpression ns 0 e
  | [], _ => nofun
  | ⟨_, none, _⟩ :: rest, hrest =>
    List.forall_mem_cons.mpr ⟨nofun, readsProjections hns rest hrest⟩
  | ⟨_, some value, _⟩ :: rest, ⟨hvalue, hrest⟩ =>
    List.forall_mem_cons.mpr ⟨fun e same => Option.some.inj same ▸
      readsExpression_of_printable hns value hvalue 0, readsProjections hns rest hrest⟩

theorem readsGroupConditions (hns : ns.Labelled) :
    ∀ cs : List GroupCondition, GroupCondition.EverywhereAll printableChecks cs →
      ∀ c ∈ cs, ∀ indent, ReadsExpression ns indent c.value
  | [], _ => nofun
  | ⟨value, _⟩ :: rest, ⟨hvalue, hrest⟩ => List.forall_mem_cons.mpr
    ⟨readsExpression_of_printable hns value hvalue, readsGroupConditions hns rest hrest⟩

theorem readsOrderConditions (hns : ns.Labelled) :
    ∀ cs : List OrderCondition, OrderCondition.EverywhereAll printableChecks cs →
      ∀ c ∈ cs, ∀ indent, ReadsExpression ns indent c.value
  | [], _ => nofun
  | ⟨value, _⟩ :: rest, ⟨hvalue, hrest⟩ => List.forall_mem_cons.mpr
    ⟨readsExpression_of_printable hns value hvalue, readsOrderConditions hns rest hrest⟩

/-- The parts of every printable query are read back. -/
theorem readsParts_of_printable (hns : ns.Labelled) :
    ∀ q : Query, q.Everywhere printableChecks → ∀ indent, ReadsParts ns indent q
  | ⟨form, _, _, root, groupBy, having, orderBy, _, _, values, _⟩,
      ⟨⟨⟨_, _, kind, _⟩, _⟩, hform, hroot, hgroup, hhaving, horder, _⟩, indent =>
    { items := fun modifier everything items same => by
        cases same
        exact readsProjections hns items hform
      root := (readsGroup_of_printable hns root hroot).content (by rw [kind]; rfl) _
      groupBy := fun c member => readsGroupConditions hns groupBy hgroup c member indent
      having := fun e member => readsExpressions hns having hhaving e member indent
      orderBy := fun c member => readsOrderConditions hns orderBy horder c member indent }

end

end Trees

end Grammar

end SparqlMetrics
