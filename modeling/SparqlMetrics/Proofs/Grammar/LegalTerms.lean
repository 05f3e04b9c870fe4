import SparqlMetrics.Proofs.Absolute
import SparqlMetrics.Proofs.Grammar.Yields
import SparqlMetrics.Proofs.Tree.Legal

/-!
# Terms, paths and triples as they are read

What the readers of terms, paths, triples and tables yield under legal declarations. A number has a
sign only where a sign stood in front of it, which is why these statements name the lexeme at which
a reader runs.
-/
namespace SparqlMetrics

def Term.IsAbsolute (t : Term) : Prop := ∃ iri, t.node = .iri iri ∧ Iri.hasScheme iri = true

theorem Term.IsAbsolute.legal {t : Term} (h : t.IsAbsolute) (signed : Bool) :
    t.node.Legal signed := by
  obtain ⟨iri, same, absolute⟩ := h
  rw [same]
  exact absolute

theorem Term.IsAbsolute.isIri {t : Term} (h : t.IsAbsolute) : t.node.isIri = true := by
  obtain ⟨iri, same, _⟩ := h
  rw [same]
  rfl

/-- A path with its steps along absolute IRIs. -/
def Path.Legal (p : Path) : Prop := p.IsFormed ∧ ∀ iri ∈ p.iris, Iri.hasScheme iri = true

/-- A member of a group that is no sub-query. -/
def Element.IsStatement (e : Element) : Prop :=
  e.Everywhere legalChecks ∧ e.isSubquery = false

theorem Literal.Legal.signed {signed : Bool} {l : Literal} (h : l.Legal signed) :
    l.Legal true := by
  cases h with
  | plain value => exact .plain value
  | tagged value tag => exact .tagged value tag
  | typed value absolute => exact .typed value absolute
  | number sign _ numeral => exact .number sign nofun numeral
  | truth => exact .truth
  | falsehood => exact .falsehood

theorem Node.Legal.signed {signed : Bool} {n : Node} (h : n.Legal signed) : n.Legal true := by
  cases n with
  | literal l => exact Literal.Legal.signed h
  | _ => exact h

namespace Grammar

open SparqlMetrics.Parser

variable {ns : Namespaces}

theorem yields_resolvedIri (h : ns.Legal) : Yields (resolvedIri ns) (Iri.hasScheme · = true) :=
  yields_token.bind fun t _ => by
    split
    · split
      · next found => exact yields_pure (h.absolute_resolve? found)
      · exact yields_throw _
    · split
      · next found => exact yields_pure (h.absolute_expand? found)
      · exact yields_throw _
    · exact yields_expected _

theorem yields_iriTerm (h : ns.Legal) : Yields (iriTerm ns) Term.IsAbsolute :=
  yields_token.bind fun _ _ => (yields_resolvedIri h).bind fun iri absolute =>
    yields_skip.bind fun _ _ => yields_pure ⟨iri, rfl, absolute⟩

theorem yields_stringTail (h : ns.Legal) (value : Text) :
    Yields (stringTail ns value) (Literal.Legal false) :=
  yields_lexeme.bind fun here spelled => by
    split
    · exact yields_skip.bind fun _ _ => yields_pure (.tagged value spelled)
    · exact yields_skip.bind fun _ _ => (yields_resolvedIri h).bind fun _ absolute =>
        yields_skip.bind fun _ _ => yields_pure (.typed value absolute)
    · exact yields_pure (.plain value)

/-- A sign is returned only where one stands. -/
theorem yieldsAt_numberSign (here : Lexeme) :
    YieldsAt here numberSign fun sign => IsSign sign ∧ (isSumSign here = false → sign = []) :=
  .bind_lexeme fun _ => by
    split
    · next sign =>
      have isSign : IsSign here.text := by
        simp only [Bool.or_eq_true, beq_iff_eq] at sign
        rcases sign with rfl | rfl
        · exact .inr (.inr (by decide))
        · exact .inr (.inl (by decide))
      have isSum : isSumSign here = true := by
        simpa [isSumSign, or_comm] using sign
      refine Yields.at (yields_followingLexeme.bind fun _ _ => ?_) here
      split
      · exact yields_skip.bind fun _ _ => yields_pure ⟨isSign, by simp [isSum]⟩
      · exact yields_expected _
    · exact Yields.at (yields_pure ⟨.inl rfl, fun _ => rfl⟩) here

theorem YieldsAt.bind {α β : Type} {here : Lexeme} {p : Parser α} {f : α → Parser β}
    {P : α → Prop} {Q : β → Prop} (hp : YieldsAt here p P) (hf : ∀ x, P x → Yields (f x) Q) :
    YieldsAt here (p >>= f) Q := by
  intro c y c' hc hhere hy
  obtain ⟨x, c₁, hx, hrest⟩ := bind_eq_ok.mp hy
  have first := hp c x c₁ hc hhere hx
  exact hf x first.1 c₁ y c' first.2 hrest

theorem yieldsAt_literalTerm (h : ns.Legal) (here : Lexeme) :
    YieldsAt here (literalTerm ns) fun t => ∃ l, t.node = .literal l ∧ l.Legal (isSumSign here) :=
  .bind_position fun start => YieldsAt.bind (yieldsAt_numberSign here) fun sign hsign => by
    have finish : ∀ l : Literal, l.Legal (isSumSign here) →
        Yields (do pure ⟨.literal l, ⟨start, ← position⟩⟩)
          fun t : Term => ∃ l, t.node = .literal l ∧ l.Legal (isSumSign here) :=
      fun l hl => yields_position.bind fun _ _ => yields_pure ⟨l, rfl, hl⟩
    refine yields_lexeme.bind fun next spelled => ?_
    split
    · next value _ =>
      refine yields_skip.bind fun _ _ => (yields_stringTail h value).bind fun l hl => finish l ?_
      cases hl with
      | plain value => exact .plain value
      | tagged value tag => exact .tagged value tag
      | typed value absolute => exact .typed value absolute
      | number sign unsigned numeral =>
          exact .number sign (fun _ => unsigned rfl) numeral
      | truth => exact .truth
      | falsehood => exact .falsehood
    · exact yields_skip.bind fun _ _ => finish _ (.number hsign.1 hsign.2 spelled)
    · exact yields_skip.bind fun _ _ => finish _ .truth
    · exact yields_skip.bind fun _ _ => finish _ .falsehood
    · exact (yields_expected _).bind fun l hl => finish l hl

theorem yieldsAt_variable (name : Text) :
    YieldsAt (.variableName name) (varOrTerm ns)
      fun t => t.node = .var name ∧ IsVariableName name :=
  .bind_token fun t here spelled => by
    rw [here]
    exact Yields.at (yields_skip.bind fun _ _ => yields_pure ⟨rfl, spelled⟩) _

/-- A term that is read is legal; it is a blank node only where a label stands. -/
theorem yieldsAt_varOrTerm (h : ns.Legal) (here : Lexeme) :
    YieldsAt here (varOrTerm ns) fun t => t.node.Legal (isSumSign here) ∧
      (t.node.isBlank = true → ∃ label, here = .blankNodeLabel label) :=
  .bind_token fun t same spelled => by
    have literal : YieldsAt here (literalTerm ns) fun t => t.node.Legal (isSumSign here) ∧
        (t.node.isBlank = true → ∃ label, here = .blankNodeLabel label) := by
      intro c x c' hc hhere hx
      obtain ⟨⟨l, node, legal⟩, hc'⟩ := yieldsAt_literalTerm h here c x c' hc hhere hx
      refine ⟨?_, hc'⟩
      simp only [node]
      exact ⟨legal, nofun⟩
    have absolute : YieldsAt here (iriTerm ns) fun t => t.node.Legal (isSumSign here) ∧
        (t.node.isBlank = true → ∃ label, here = .blankNodeLabel label) :=
      ((yields_iriTerm h).mono fun t ht => ⟨ht.legal _, fun blank => by
        obtain ⟨iri, node, _⟩ := ht
        rw [node] at blank
        cases blank⟩).at here
    rw [same]
    cases here with
    | variableName name => exact Yields.at (yields_skip.bind fun _ _ =>
        yields_pure ⟨spelled, nofun⟩) _
    | blankNodeLabel label => exact Yields.at (yields_skip.bind fun _ _ =>
        yields_pure ⟨spelled, fun _ => ⟨label, rfl⟩⟩) _
    | iri reference => exact absolute
    | prefixedName label localName => exact absolute
    | string value long => exact literal
    | number kind digits => exact literal
    | keyword k word =>
        cases k <;> first | exact literal | exact Yields.at (yields_expected _) _
    | symbol s =>
        cases s <;> first | exact literal | exact Yields.at (yields_expected _) _
    | _ => exact Yields.at (yields_expected _) _

theorem yields_varOrTerm (h : ns.Legal) : Yields (varOrTerm ns) (·.node.Legal true) :=
  fun c x c' hc hx =>
    (yieldsAt_varOrTerm h _ c x c' hc rfl hx).imp_left fun legal => legal.1.signed

theorem yields_varOrIri (h : ns.Legal) : Yields (varOrIri ns) fun t =>
    t.node.Legal true ∧ (t.node.isIri = true ∨ t.node.isVar = true) := by
  have absolute : Yields (iriTerm ns) fun t =>
      t.node.Legal true ∧ (t.node.isIri = true ∨ t.node.isVar = true) :=
    (yields_iriTerm h).mono fun t ht => ⟨ht.legal _, .inl ht.isIri⟩
  refine yields_lexeme_bind fun here _ => ?_
  split
  · intro c x c' hc hhere hx
    obtain ⟨⟨same, spelled⟩, hc'⟩ := yieldsAt_variable _ c x c' hc hhere hx
    refine ⟨?_, hc'⟩
    simp only [same]
    exact ⟨spelled, .inr rfl⟩
  · exact absolute.at _
  · exact absolute.at _
  · exact (yields_expected _).at _

/-- A value of a table: a resource, or nothing. -/
theorem yields_dataValue (h : ns.Legal) : Yields (dataValue ns) (IfSome fun t =>
    t.node.Legal true ∧ t.node.isResource = true) := by
  have literal : ∀ here, YieldsAt here (some <$> literalTerm ns) (IfSome fun t =>
      t.node.Legal true ∧ t.node.isResource = true) := by
    intro here c x c' hc hhere hx
    rw [← bind_pure_comp] at hx
    refine YieldsAt.bind (yieldsAt_literalTerm h here) (fun t ht => ?_) c x c' hc hhere hx
    obtain ⟨l, node, legal⟩ := ht
    exact yields_pure (ifSome_some (by rw [node]; exact ⟨legal.signed, rfl⟩))
  have absolute : Yields (some <$> iriTerm ns) (IfSome fun t =>
      t.node.Legal true ∧ t.node.isResource = true) :=
    Yields.some ((yields_iriTerm h).mono fun t ht => ⟨ht.legal _, by
      obtain ⟨iri, node, _⟩ := ht
      rw [node]
      rfl⟩)
  refine yields_lexeme_bind fun here _ => ?_
  cases here with
  | iri reference => exact absolute.at _
  | prefixedName label localName => exact absolute.at _
  | string value long => exact literal _
  | number kind digits => exact literal _
  | keyword k word =>
      cases k with
      | UNDEF => exact Yields.at (yields_skip.bind fun _ _ => yields_none) _
      | TRUE => exact literal _
      | FALSE => exact literal _
      | _ => exact Yields.at (yields_expected _) _
  | symbol s =>
      cases s with
      | plus => exact literal _
      | minus => exact literal _
      | _ => exact Yields.at (yields_expected _) _
  | _ => exact Yields.at (yields_expected _) _

end Grammar

end SparqlMetrics
