import SparqlMetrics.Grammar.Triples
import SparqlMetrics.Proofs.Grammar.TracksTerms

/-!
# Two runs of the readers of paths, triples and tables

The readers of paths, triples and tables follow each other when the readers one level further in do,
which is the structure `TwoRuns.LevelTracks`.
-/
namespace SparqlMetrics

def Grammar.Verb.rewrite (w : Rewriting) : Grammar.Verb → Grammar.Verb
  | .term t => .term (t.rewrite w)
  | .path p => .path (p.rewrite w)

namespace TwoRuns

open SparqlMetrics.Parser SparqlMetrics.Grammar

def rewriteNode (w : Rewriting) (r : Term × List Element) : Term × List Element :=
  (r.1.rewrite w, r.2.map (Element.rewrite w))

structure LevelTracks (S : TwoRuns) (l m : Level) : Prop where
  namespaces : S.related l.namespaces m.namespaces
  operand : S.Tracks (Same (Expression.rewrite S.rewriting)) l.operand m.operand
  group : ∀ kind kind', Same (GroupKind.rewrite S.rewriting) kind kind' →
    S.Tracks (Same (Group.rewrite S.rewriting)) (l.group kind) (m.group kind')
  pathGroup : S.Tracks (Same (Path.rewrite S.rewriting)) l.pathGroup m.pathGroup
  blankNode : S.Tracks (Same (rewriteNode S.rewriting)) l.blankNode m.blankNode

variable {S : TwoRuns} {ns ms : Namespaces} {l m : Level}

theorem same_step {t u : Term} (h : Same (Term.rewrite S.rewriting) t u) :
    Same (Path.rewrite S.rewriting) (.step t) (.step u) :=
  congrArg Path.step h

theorem tracks_iriStep (h : S.related ns ms) :
    S.Tracks (Same (Path.rewrite S.rewriting)) (iriStep ns) (iriStep ms) :=
  tracks_token.bind fun t u alike => by
    rw [alike.answer (f := Lexeme.isTypeWord) fun _ _ _ => rfl]
    refine tracks_ite (fun _ => ?_) fun _ => (tracks_iriTerm h).map fun _ _ => same_step
    exact tracks_skip.bind fun _ _ _ => tracks_pure (same_step (same_term rfl _ _))

theorem tracks_setMember (h : S.related ns ms) :
    S.Tracks (Same (Path.rewrite S.rewriting)) (setMember ns) (setMember ms) :=
  (tracks_tryMark _).bind fun _ _ same => same ▸
    tracks_ite (fun _ => (tracks_iriStep h).map fun _ _ same => congrArg Path.inverse same)
      fun _ => tracks_iriStep h

theorem tracks_joinAfter (s : Symbol) (how : PathJoin) {part part' : Parser Path}
    (hpart : S.Tracks (Same (Path.rewrite S.rewriting)) part part') (left left' : Path)
    (hleft : Same (Path.rewrite S.rewriting) left left') :
    S.Tracks (Same (Option.map (Path.rewrite S.rewriting))) (joinAfter s how part left)
      (joinAfter s how part' left') :=
  (tracks_tryMark s).bind fun _ _ same => same ▸
    tracks_ite (fun _ => hpart.bind fun _ _ hright => tracks_pure
        (congrArg some (congrArg₂ (Path.join how) hleft hright)))
      fun _ => tracks_none

/-- Parts joined to the left. -/
theorem tracks_joined (s : Symbol) (how : PathJoin) {part part' : Parser Path}
    (hpart : S.Tracks (Same (Path.rewrite S.rewriting)) part part') :
    S.Tracks (Same (Path.rewrite S.rewriting))
      (do let first ← part; repeatFrom (joinAfter s how part) first)
      (do let first ← part'; repeatFrom (joinAfter s how part') first) :=
  hpart.bind fun _ _ same => tracks_loop (tracks_joinAfter s how hpart) same

theorem same_placeholder : Same (Path.rewrite S.rewriting) .placeholder .placeholder := rfl

theorem tracks_setMembers (h : S.related ns ms) :
    S.Tracks (Same (Path.rewrite S.rewriting)) (setMembers ns) (setMembers ms) :=
  (tracks_isAt _).bind fun _ _ same => same ▸
    tracks_ite (fun _ => tracks_pure same_placeholder)
      fun _ => tracks_joined .pipe .alternative (tracks_setMember h)

theorem tracks_negatedSet (h : S.related ns ms) :
    S.Tracks (Same (Path.rewrite S.rewriting)) (negatedSet ns) (negatedSet ms) :=
  (tracks_tryMark _).bind fun _ _ same => same ▸
    tracks_ite (fun _ => (tracks_setMembers h).bind fun _ _ same => (tracks_mark _ _).bind
        fun _ _ _ => tracks_pure (congrArg Path.negated same))
      fun _ => (tracks_setMember h).map fun _ _ same => congrArg Path.negated same

theorem tracks_pathPrimary (h : S.LevelTracks l m) :
    S.Tracks (Same (Path.rewrite S.rewriting)) (pathPrimary l) (pathPrimary m) :=
  tracks_lexeme.bind fun here there alike => by
    cases alike.1 with
    | same =>
        split
        · exact tracks_skip.bind fun _ _ _ => tracks_negatedSet h.namespaces
        · exact h.pathGroup
        · exact tracks_iriStep h.namespaces
        · exact tracks_iriStep h.namespaces
        · exact tracks_ite (fun _ => tracks_iriStep h.namespaces) fun _ => tracks_expected _ _
    | iri => exact tracks_iriStep h.namespaces

theorem tracks_pathElement (h : S.LevelTracks l m) :
    S.Tracks (Same (Path.rewrite S.rewriting)) (pathElement l) (pathElement m) :=
  (tracks_pathPrimary h).bind fun _ _ same => tracks_lexeme.bind fun here there alike => by
    rw [alike.answer (f := repetition?) fun _ _ _ => rfl]
    cases repetition? there with
    | some times =>
        exact tracks_skip.bind fun _ _ _ => tracks_pure (congrArg (Path.repeated times) same)
    | none => exact tracks_pure same

theorem tracks_pathPart (h : S.LevelTracks l m) :
    S.Tracks (Same (Path.rewrite S.rewriting)) (pathPart l) (pathPart m) :=
  (tracks_tryMark _).bind fun _ _ same => same ▸
    tracks_ite (fun _ => (tracks_pathElement h).map fun _ _ same => congrArg Path.inverse same)
      fun _ => tracks_pathElement h

theorem tracks_pathSequence (h : S.LevelTracks l m) :
    S.Tracks (Same (Path.rewrite S.rewriting)) (pathSequence l) (pathSequence m) :=
  tracks_joined .slash .sequence (tracks_pathPart h)

theorem tracks_path (h : S.LevelTracks l m) :
    S.Tracks (Same (Path.rewrite S.rewriting)) (path l) (path m) :=
  tracks_joined .pipe .alternative (tracks_pathSequence h)

theorem tracks_bracketedPath (h : S.LevelTracks l m) :
    S.Tracks (Same (Path.rewrite S.rewriting)) (bracketedPath l) (bracketedPath m) :=
  tracks_skip.bind fun _ _ _ => (tracks_path h).bind fun _ _ same =>
    (tracks_mark _ _).bind fun _ _ _ => tracks_pure same

theorem rewrite_ofPath (w : Rewriting) (p : Path) :
    (Verb.ofPath p).rewrite w = Verb.ofPath (p.rewrite w) := by
  cases p <;> rfl

theorem tracks_verb (h : S.LevelTracks l m) :
    S.Tracks (Same (Verb.rewrite S.rewriting)) (verb l) (verb m) := by
  have proper : S.Tracks (Same (Verb.rewrite S.rewriting)) (Verb.ofPath <$> path l)
      (Verb.ofPath <$> path m) :=
    (tracks_path h).map fun p q same => by
      simp only [Same, rewrite_ofPath]
      exact congrArg Verb.ofPath same
  refine tracks_lexeme.bind fun here there alike => ?_
  cases alike.1 with
  | same =>
      split
      · exact (tracks_varOrTerm h.namespaces).map fun _ _ same => congrArg Verb.term same
      · exact proper
  | iri => exact proper

theorem tracks_atTriples : S.Tracks Eq atTriples atTriples :=
  tracks_lexeme.bind fun here there alike => tracks_followingLexeme.bind fun next next' alike' => by
    refine tracks_pure ?_
    rw [alike'.answer (f := startsTriples here) fun _ _ _ => by cases here <;> rfl]
    exact alike.answer (f := (startsTriples · next')) fun _ _ _ => rfl

/-- Joining alike terms by alike verbs gives alike elements. -/
theorem same_element {v v' : Verb} {subject subject' object object' : Term} {span span' : Span}
    (hv : Same (Verb.rewrite S.rewriting) v v')
    (hs : Same (Term.rewrite S.rewriting) subject subject')
    (ho : Same (Term.rewrite S.rewriting) object object') :
    Same (Element.rewrite S.rewriting) (v.element subject object span)
      (v'.element subject' object' span') := by
  have spans := S.span_eq span span'
  cases v with
  | term t =>
      cases v' with
      | term t' =>
          have predicate : t.rewrite S.rewriting = t'.rewrite S.rewriting := Verb.term.inj hv
          simp only [Same, Verb.element, Element.rewrite, Triple.rewrite, hs, ho, predicate, spans]
      | path p' => cases hv
  | path p =>
      cases v' with
      | term t' => cases hv
      | path p' =>
          have path : p.rewrite S.rewriting = p'.rewrite S.rewriting := Verb.path.inj hv
          simp only [Same, Verb.element, Element.rewrite, hs, ho, path, spans]

theorem same_append {α κ : Type} {f : α → κ} {xs ys xs' ys' : List α}
    (h : Same (List.map f) xs ys) (h' : Same (List.map f) xs' ys') :
    Same (List.map f) (xs ++ xs') (ys ++ ys') := by
  rw [Same, List.map_append, List.map_append, h, h']

theorem same_flatten {α κ : Type} {f : α → κ} {xss yss : List (List α)}
    (h : Same (List.map (List.map f)) xss yss) :
    Same (List.map f) xss.flatten yss.flatten := by
  rw [Same, List.map_flatten, List.map_flatten, h]

theorem tracks_object (h : S.LevelTracks l m) :
    S.Tracks (Same (rewriteNode S.rewriting)) (object l) (object m) := by
  have plain : S.Tracks (Same (rewriteNode S.rewriting))
      (do return (← varOrTerm l.namespaces, [])) (do return (← varOrTerm m.namespaces, [])) :=
    (tracks_varOrTerm h.namespaces).bind fun _ _ same => tracks_pure (congrArg (·, []) same)
  refine tracks_lexeme.bind fun here there alike => ?_
  cases alike.1 with
  | same =>
      split
      · exact h.blankNode
      · exact tracks_fail _ _
      · exact plain
  | iri => exact plain

abbrev SameElements (S : TwoRuns) : List Element → List Element → Prop :=
  Same (List.map (Element.rewrite S.rewriting))

theorem tracks_objectElements (h : S.LevelTracks l m) {subject subject' : Term} {v v' : Verb}
    (hs : Same (Term.rewrite S.rewriting) subject subject')
    (hv : Same (Verb.rewrite S.rewriting) v v') :
    S.Tracks S.SameElements (objectElements l subject v) (objectElements m subject' v') :=
  (tracks_object h).bind fun r r' same => tracks_position.bind fun _ _ _ => tracks_pure <| by
    obtain ⟨target, nested⟩ := r
    obtain ⟨target', nested'⟩ := r'
    have parts := Prod.mk.inj same
    exact same_append parts.2 (congrArg (fun e => [e]) (same_element hv hs parts.1))

theorem tracks_property (h : S.LevelTracks l m) {subject subject' : Term}
    (hs : Same (Term.rewrite S.rewriting) subject subject') :
    S.Tracks S.SameElements (property l subject) (property m subject') :=
  (tracks_verb h).bind fun _ _ hv => (tracks_objectElements h hs hv).bind fun _ _ first =>
    Tracks.bind (Tracks.many ((tracks_tryMark _).bind fun _ _ same => same ▸
        tracks_ite (fun _ => (tracks_objectElements h hs hv).some) fun _ => tracks_none))
      fun _ _ more => tracks_pure (same_append first (same_flatten more))

theorem tracks_skipSemicolons : S.Tracks Eq skipSemicolons skipSemicolons :=
  Tracks.bind (Tracks.many (f := id) ((tracks_tryMark _).bind fun _ _ same => same ▸
    tracks_ite (fun _ => tracks_pure rfl) fun _ => tracks_none)) fun _ _ _ => tracks_pure rfl

theorem tracks_nextProperty (h : S.LevelTracks l m) {subject subject' : Term}
    (hs : Same (Term.rewrite S.rewriting) subject subject') :
    S.Tracks (Same (Option.map (List.map (Element.rewrite S.rewriting))))
      (nextProperty l subject) (nextProperty m subject') :=
  (tracks_isAt _).bind fun _ _ same => same ▸
    tracks_ite (fun _ => tracks_skipSemicolons.bind fun _ _ _ => tracks_lexeme.bind
        fun here there alike => by
          rw [alike.answer (f := startsVerb) fun _ _ _ => rfl]
          exact tracks_ite (fun _ => (tracks_property h hs).some) fun _ => tracks_none)
      fun _ => tracks_none

theorem tracks_propertyList (h : S.LevelTracks l m) {subject subject' : Term}
    (hs : Same (Term.rewrite S.rewriting) subject subject') (required : Bool) :
    S.Tracks S.SameElements (propertyList l subject required)
      (propertyList m subject' required) :=
  tracks_lexeme.bind fun here there alike => by
    rw [alike.answer (f := startsVerb) fun _ _ _ => rfl]
    refine tracks_ite (fun _ => ?_) fun _ => tracks_ite (fun _ => tracks_expected _ _)
      fun _ => tracks_pure rfl
    exact (tracks_property h hs).bind fun _ _ first => (tracks_nextProperty h hs).many.bind
      fun _ _ more => tracks_pure (same_append first (same_flatten more))

theorem same_endingAt {t u : Term} (h : Same (Term.rewrite S.rewriting) t u) (stop stop' : Nat) :
    Same (Term.rewrite S.rewriting) (endingAt t stop) (endingAt u stop') :=
  same_term (Term.mk.inj h).1 _ _

theorem tracks_bracketedBlankNode (h : S.LevelTracks l m) :
    S.Tracks (Same (rewriteNode S.rewriting)) (bracketedBlankNode l) (bracketedBlankNode m) :=
  tracks_position.bind fun start start' _ => tracks_skip.bind fun _ _ _ =>
    (tracks_freshBlankNode start start').bind fun _ _ node => (tracks_tryMark _).bind
      fun _ _ same => same ▸ tracks_ite
        (fun _ => tracks_position.bind fun _ _ _ => tracks_pure
          (congrArg (·, []) (same_endingAt node _ _)))
        fun _ => (tracks_propertyList h node true).bind fun _ _ properties =>
          (tracks_mark _ _).bind fun _ _ _ => tracks_position.bind fun _ _ _ => tracks_pure
            (congrArg₂ Prod.mk (same_endingAt node _ _) properties)

theorem tracks_triplesSameSubject (h : S.LevelTracks l m) :
    S.Tracks S.SameElements (triplesSameSubject l) (triplesSameSubject m) := by
  have plain : S.Tracks S.SameElements
      (do let subject ← varOrTerm l.namespaces; propertyList l subject true)
      (do let subject ← varOrTerm m.namespaces; propertyList m subject true) :=
    (tracks_varOrTerm h.namespaces).bind fun _ _ subject => tracks_propertyList h subject true
  refine tracks_lexeme.bind fun here there alike => ?_
  cases alike.1 with
  | same =>
      split
      · exact tracks_fail _ _
      · refine tracks_followingLexeme.bind fun next next' alikeNext => ?_
        rw [alikeNext.answer (f := (· == .symbol .rbracket)) fun _ _ _ => rfl]
        refine h.blankNode.bind fun r r' same => ?_
        obtain ⟨subject, nested⟩ := r
        obtain ⟨subject', nested'⟩ := r'
        have parts := Prod.mk.inj same
        exact (tracks_propertyList h parts.1 _).bind fun _ _ properties =>
          tracks_pure (same_append parts.2 properties)
      · exact plain
  | iri => exact plain

abbrev SameCells (S : TwoRuns) : List (Option Term) → List (Option Term) → Prop :=
  Same (List.map (Option.map (Term.rewrite S.rewriting)))

theorem tracks_valuesUpTo (h : S.related ns ms) (closing : Symbol) :
    S.Tracks S.SameCells (valuesUpTo ns closing) (valuesUpTo ms closing) :=
  Tracks.bind (Tracks.many ((tracks_isAt _).bind fun _ _ same => same ▸
      tracks_ite (fun _ => tracks_none) fun _ => (tracks_dataValue h).some))
    fun _ _ cells => tracks_skip.bind fun _ _ _ => tracks_pure cells

theorem same_length {α κ : Type} {f : α → κ} {xs ys : List α} (h : Same (List.map f) xs ys) :
    xs.length = ys.length := by
  simpa using congrArg List.length h

theorem tracks_row (h : S.related ns ms) (columns : Nat) :
    S.Tracks (Same (Option.map (List.map (Option.map (Term.rewrite S.rewriting)))))
      (row ns columns) (row ms columns) :=
  (tracks_tryMark _).bind fun _ _ same => same ▸
    tracks_ite (fun _ => (tracks_valuesUpTo h _).bind fun cells cells' same => by
        rw [same_length same]
        split
        · exact tracks_pure (congrArg some same)
        · exact tracks_fail _ _)
      fun _ => tracks_none

theorem tracks_column? : S.Tracks (Same (Option.map id)) column? column? :=
  tracks_lexeme.bind fun here there alike => by
    cases alike.1 with
    | same =>
        split
        · exact tracks_skip.bind fun _ _ _ => tracks_pure rfl
        · exact tracks_none
    | iri => exact tracks_none

theorem same_table {columns : List Text} {rows rows' : List (List (Option Term))}
    (h : Same (List.map (List.map (Option.map (Term.rewrite S.rewriting)))) rows rows')
    (span span' : Span) :
    Same (InlineData.rewrite S.rewriting) ⟨columns, rows, span⟩ ⟨columns, rows', span'⟩ := by
  simp only [Same, InlineData.rewrite, S.span_eq span span', InlineData.mk.injEq, true_and,
    and_true]
  exact h

theorem tracks_inlineData (h : S.related ns ms) :
    S.Tracks (Same (InlineData.rewrite S.rewriting)) (inlineData ns) (inlineData ms) :=
  tracks_position.bind fun _ _ _ => tracks_lexeme.bind fun here there alike => by
    cases alike.1 with
    | same =>
        split
        · refine tracks_skip.bind fun _ _ _ => (tracks_mark _ _).bind fun _ _ _ =>
            (tracks_valuesUpTo h _).bind fun cells cells' same => tracks_position.bind fun _ _ _ =>
              tracks_pure (same_table ?_ _ _)
          have single := congrArg (List.map fun cell => [cell]) same
          rw [List.map_map, List.map_map] at single
          rw [Same, List.map_map, List.map_map]
          exact single
        · exact tracks_skip.bind fun _ _ _ => tracks_column?.many.bind fun columns columns' same => by
            obtain rfl : columns = columns' := by simpa [Same] using same
            exact (tracks_mark _ _).bind fun _ _ _ => (tracks_mark _ _).bind fun _ _ _ =>
              (tracks_row h _).many.bind fun _ _ rows => (tracks_mark _ _).bind fun _ _ _ =>
                tracks_position.bind fun _ _ _ => tracks_pure (same_table rows _ _)
        · exact tracks_expected _ _
    | iri => exact tracks_expected _ _

end TwoRuns

end SparqlMetrics
