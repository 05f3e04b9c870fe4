import SparqlMetrics.Grammar.Triples
import SparqlMetrics.Proofs.Grammar.AnswersTerms

/-!
# What readers of triples and tables answer

The readers of triples and tables account for their answers when the readers one level further in
do. The values of a table end at its closing mark: each of them takes a token, so the loop over them
cannot run out of rounds.
-/
namespace SparqlMetrics.Grammar

open SparqlMetrics.Parser

variable {S : Scope} {level : Level}

def Verb.Holds (S : Scope) : Verb → Prop
  | .term t => S.checks.term t
  | .path p => HoldsPath S p

abbrev HoldsElements (S : Scope) (es : List Element) : Prop :=
  ∀ e ∈ es, e.Everywhere S.checks

theorem Verb.holds_ofPath {p : Path} (h : HoldsPath S p) : (Verb.ofPath p).Holds S := by
  cases p with
  | step t => exact h.step t rfl
  | _ => exact h

theorem answers_verb (h : level.Answers S) : Answers S (verb level) (Verb.Holds S) := by
  unfold verb
  rw [h.namespaces]
  refine answers_lexeme fun here _ => ?_
  split
  · exact answers_varOrTerm.at.map fun _ ht => ht
  · exact (answers_path h).at.map fun _ hp => Verb.holds_ofPath hp

theorem Verb.Holds.element {v : Verb} (h : v.Holds S) {subject object : Term}
    (hs : S.checks.term subject) (ho : S.checks.term object) (span : Span) :
    (v.element subject object span).Everywhere S.checks := by
  cases v with
  | term predicate => exact ⟨TextClass.keeps_nil, hs, h, ho⟩
  | path p => exact ⟨HoldsPath.texts h, hs, ho⟩

theorem answers_object (h : level.Answers S) :
    Answers S (object level) fun r => S.checks.term r.1 ∧ HoldsElements S r.2 := by
  unfold object
  rw [h.namespaces]
  refine answers_lexeme fun here _ => ?_
  split
  · exact h.blankNode
  · exact answers_fail (S.texts.constant _)
  · exact answers_varOrTerm.at.bind fun t ht => answers_pure ⟨ht, nofun⟩

theorem answers_objectElements (h : level.Answers S) {subject : Term}
    (hs : S.checks.term subject) {v : Verb} (hv : v.Holds S) :
    Answers S (objectElements level subject v) (HoldsElements S) :=
  (answers_object h).bind fun _ hr => .position fun _ => answers_pure
    (List.forall_mem_append.mpr ⟨hr.2, List.forall_mem_singleton.mpr (hv.element hs hr.1 _)⟩)

theorem holdsElements_flatten {first : List Element} {more : List (List Element)}
    (hf : HoldsElements S first) (hm : ∀ es ∈ more, HoldsElements S es) :
    HoldsElements S (first ++ more.flatten) := by
  refine List.forall_mem_append.mpr ⟨hf, fun e member => ?_⟩
  obtain ⟨es, inside, member⟩ := List.mem_flatten.mp member
  exact hm es inside e member

theorem answers_property (h : level.Answers S) {subject : Term}
    (hs : S.checks.term subject) :
    Answers S (property level subject) (HoldsElements S) :=
  (answers_verb h).bind fun _ hv => (answers_objectElements h hs hv).bind fun _ hfirst => by
    refine (answers_many (P := HoldsElements S) ?_).bind fun _ hmore =>
      answers_pure (holdsElements_flatten hfirst hmore)
    refine (answers_tryMark (by nofun)).bind fun _ _ => ?_
    split
    · exact (answers_objectElements h hs hv).some
    · exact answers_none

theorem answers_skipSemicolons : Answers S skipSemicolons fun _ => True := by
  refine (answers_many (P := fun _ => True) ?_).bind fun _ _ => answers_pure trivial
  refine (answers_tryMark (by nofun)).bind fun _ _ => ?_
  split
  · exact answers_pure (ifSome_some trivial)
  · exact answers_none

theorem answers_nextProperty (h : level.Answers S) {subject : Term}
    (hs : S.checks.term subject) :
    Answers S (nextProperty level subject) (IfSome (HoldsElements S)) := by
  refine answers_isAt (answers_skipSemicolons.at.bind fun _ _ => ?_) answers_none
  refine answers_lexeme fun here _ => ?_
  split
  · exact (answers_property h hs).at.some
  · exact answers_none

theorem answers_propertyList (h : level.Answers S) {subject : Term}
    (hs : S.checks.term subject) (required : Bool) :
    Answers S (propertyList level subject required) (HoldsElements S) :=
  answers_lexeme fun here _ => by
    split
    · exact (answers_property h hs).at.bind fun _ hfirst =>
        (answers_many (answers_nextProperty h hs)).bind fun _ hmore =>
          answers_pure (holdsElements_flatten hfirst hmore)
    split
    · exact answers_expected _
    · exact answers_pure nofun

theorem answersAt_bracketedBlankNode (h : level.Answers S) :
    AnswersAt S (.symbol .lbracket) (bracketedBlankNode level) fun r =>
      S.checks.term r.1 ∧ HoldsElements S r.2 :=
  answersAt_brackets fun _ hnode => (answers_tryMark (by nofun)).bind fun _ _ => by
    split
    · exact .position fun _ => answers_pure ⟨hnode, nofun⟩
    · exact (answers_propertyList h hnode true).bind fun _ hp =>
        (answers_mark (by nofun) _).bind fun _ _ => .position fun _ => answers_pure ⟨hnode, hp⟩

theorem answers_triplesSameSubject (h : level.Answers S) :
    Answers S (triplesSameSubject level) (HoldsElements S) := by
  unfold triplesSameSubject
  rw [h.namespaces]
  refine answers_lexeme fun here _ => ?_
  split
  · exact answers_fail (S.texts.constant _)
  · exact .followingLexeme fun _ => h.blankNode.bind fun _ hr =>
      (answers_propertyList h hr.1 _).bind fun _ hp =>
        answers_pure (List.forall_mem_append.mpr ⟨hr.2, hp⟩)
  · exact answers_varOrTerm.at.bind fun _ hs => answers_propertyList h hs true

/-! ## Tables -/

abbrev HoldsCells (S : Scope) (cells : List (Option Term)) : Prop :=
  ∀ cell ∈ cells, IfSome S.checks.term cell

/-- Reads the next value of a table up to a closing mark. -/
def nextValue (ns : Namespaces) (closing : Symbol) : Parser (Option (Option Term)) := do
  if ← isAt closing then pure none else some <$> dataValue ns

theorem answers_nextValue (closing : Symbol) :
    Answers S (nextValue S.namespaces closing) (IfSome (IfSome S.checks.term)) :=
  answers_isAt answers_none takes_dataValue.answers.some

/-- A further value takes a token, and without one the closing mark stands here. -/
theorem nextValue_eq_ok {closing : Symbol} {c c' : Cursor} {found : Option (Option Term)}
    (read : nextValue S.namespaces closing c = .ok (found, c')) (covers : S.Covers c) :
    if found.isSome then c'.ahead.length < c.ahead.length
    else c'.token.lexeme = .symbol closing := by
  obtain ⟨here, c₁, first, rest⟩ := bind_eq_ok.mp read
  obtain ⟨rfl, rfl⟩ := Prod.mk.inj (Except.ok.inj first)
  split at rest
  · next closed =>
    obtain ⟨rfl, rfl⟩ := Prod.mk.inj (Except.ok.inj rest)
    exact beq_iff_eq.mp closed
  · have shorter := takes_dataValue.some.shorter c found c' covers trivial rest
    rw [← bind_pure_comp] at rest
    obtain ⟨cell, c₂, _, done⟩ := bind_eq_ok.mp rest
    obtain ⟨rfl, _⟩ := Prod.mk.inj (Except.ok.inj done)
    exact shorter

/-- The values of a table end at its closing mark. -/
theorem atClosing_of_values {closing : Symbol} {cells : List (Option Term)} {c c' : Cursor}
    (covers : S.Covers c) (read : many (nextValue S.namespaces closing) c = .ok (cells, c')) :
    c'.token.lexeme = .symbol closing := by
  obtain ⟨n, c₁, here, rest⟩ := bind_eq_ok.mp read
  obtain ⟨rfl, rfl⟩ := Prod.mk.inj (Except.ok.inj here)
  have stops := manyUpTo_stops (answers_nextValue closing)
    (fun c x c' covers read => by simpa using nextValue_eq_ok read covers) _ c cells c' covers
    (Nat.lt_succ_self _) rest
  obtain ⟨d, ahead, last⟩ := stops
  simpa using nextValue_eq_ok last ahead

theorem answers_valuesUpTo {closing : Symbol} (other : closing ≠ .lbracket) :
    Answers S (valuesUpTo S.namespaces closing) (HoldsCells S) :=
  (answers_many (answers_nextValue (S := S) closing)).bindIf
    (B := fun _ c => c.token.lexeme = .symbol closing)
    (fun _ _ _ covers _ read => atClosing_of_values covers read) fun _ hcells =>
      (answers_skip (Lexeme.isPassable_symbol other)).bind fun _ _ => answers_pure hcells

theorem answers_row (columns : Nat) :
    Answers S (row S.namespaces columns) (IfSome (HoldsCells S)) :=
  (answers_tryMark (by nofun)).bind fun _ _ => by
    split
    · refine (answers_valuesUpTo (by nofun)).bind fun cells hcells => ?_
      split
      · exact answers_pure (ifSome_some hcells)
      · refine answers_fail (S.texts.append (S.texts.append (S.texts.append (S.texts.append ?_ ?_) ?_)
          ?_) ?_)
        all_goals first | exact S.texts.constant _ | exact S.texts.ofNat _
    · exact answers_none

theorem answers_column? : Answers S column? (IfSome S.texts.Holds) :=
  answers_lexeme fun here keeps => by
    split
    · exact (answers_skip rfl).bind fun _ _ =>
        answers_pure (ifSome_some (TextClass.keeps_singleton.mp keeps))
    · exact answers_none

/-- A table whose columns and cells are of a class. -/
theorem everywhere_texts {columns : List Text} {rows : List (List (Option Term))} (span : Span)
    (hc : S.texts.Keeps columns) (hr : ∀ cells ∈ rows, HoldsCells S cells) :
    InlineData.Everywhere S.checks ⟨columns, rows, span⟩ :=
  ⟨hc, fun cells inside t member => hr cells inside (some t) member t rfl⟩

theorem answers_inlineData :
    Answers S (inlineData S.namespaces) (·.Everywhere S.checks) :=
  AnswersIf.position fun start => answers_lexeme fun here keeps => by
    split
    · refine (answers_skip rfl).bind fun _ _ => (answers_mark (by nofun) _).bind fun _ _ =>
        (answers_valuesUpTo (by nofun)).bind fun cells hcells => .position fun _ =>
          answers_pure (everywhere_texts _ keeps fun row member => ?_)
      obtain ⟨cell, inside, rfl⟩ := List.mem_map.mp member
      exact List.forall_mem_singleton.mpr (hcells cell inside)
    · exact (answers_skip rfl).bind fun _ _ => (answers_many answers_column?).bind
        fun _ hcolumns => (answers_mark (by nofun) _).bind fun _ _ =>
          (answers_mark (by nofun) _).bind fun _ _ => (answers_many (answers_row _)).bind
            fun _ hrows => (answers_mark (by nofun) _).bind fun _ _ => .position fun _ =>
              answers_pure (everywhere_texts _ hcolumns hrows)
    · exact answers_expected _

end SparqlMetrics.Grammar
