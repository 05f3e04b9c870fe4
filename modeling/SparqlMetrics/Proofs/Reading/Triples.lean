import SparqlMetrics.Grammar.Unit
import SparqlMetrics.Proofs.Reading.Paths

/-!
# Reading written triples and tables

A triple and a path element are read back from the line they are written on, the object without its
sign if the path has taken it. A table is read back with all its rows.
-/
namespace SparqlMetrics

open Lexeme

theorem Literal.Legal.unsigned {signed : Bool} {l l' : Literal} (h : l.Legal signed)
    (unsigned : l.unsigned? = some l') (ns : Namespaces) :
    l'.Legal signed ∧ l.write ns = Byte.plus :: l'.write ns ∧ l'.datatype = l.datatype := by
  cases h with
  | @number sign digits kind hsign allowed numeral =>
      rcases hsign with rfl | rfl | rfl
      · obtain ⟨b, more, rfl, digit⟩ := isDigit_head_numeral numeral
        have other : b ≠ Byte.plus := by
          rintro rfl
          exact absurd digit (by decide)
        simp [unsigned?, other] at unsigned
      · cases unsigned
        exact ⟨.number (.inl rfl) (fun _ => rfl) numeral, rfl, rfl⟩
      · cases unsigned
  | truth => cases unsigned
  | falsehood => cases unsigned
  | _ => cases unsigned

/-- An object that is written with a plus sign stays legal and clean without it. -/
theorem Node.unsigned_legal {signed : Bool} {node node' : Node} (h : node.Legal signed)
    (unsigned : node.unsigned? = some node') (ns : Namespaces) (span : Span) :
    node'.Legal signed ∧ (node.Clean → node'.Clean) ∧
      Term.write ns ⟨node, span⟩ = Byte.plus :: Term.write ns ⟨node', span⟩ := by
  cases node with
  | literal l =>
      obtain ⟨l', found, rfl⟩ := Option.map_eq_some_iff.mp unsigned
      obtain ⟨legal, written, datatype⟩ := Literal.Legal.unsigned h found ns
      exact ⟨legal, fun clean => by simpa [Node.Clean, datatype] using clean, written⟩
  | _ => cases unsigned

/-- A triple or a path element in writing, without the dot that ends it. -/
def Element.sentence (ns : Namespaces) : Element → Text
  | .triple t =>
    t.subject.write ns ++ Byte.space :: t.predicate.writePredicate ns ++
      Byte.space :: t.object.write ns
  | .path subject p object _ =>
    subject.write ns ++ Byte.space :: p.write ns ++ Byte.space :: object.write ns
  | _ => []

def Element.isSentence : Element → Bool
  | .triple _ => true
  | .path _ _ _ _ => true
  | _ => false

theorem text_write_sentence {ns : Namespaces} {e : Element} (h : e.isSentence = true) (indent : Nat) :
    (e.write ns indent).text = line indent (e.sentence ns ++ utf8 " .") := by
  cases e with
  | triple t =>
      rw [Element.write, Passage.text_part, Triple.write, Element.sentence]
  | path subject p object span =>
      rw [Element.write, Passage.text_part, Element.sentence]
  | _ => cases h

theorem Term.writePredicate_iri {ns : Namespaces} {predicate : Term} (h : predicate.node.isIri = true) :
    predicate.writePredicate ns = (Path.step predicate).write ns := by
  obtain ⟨node, span⟩ := predicate
  cases node with
  | iri value => rfl
  | _ => cases h

theorem Term.writePredicate_variable {ns : Namespaces} {predicate : Term}
    (h : predicate.node.isVar = true) : predicate.writePredicate ns = predicate.write ns := by
  obtain ⟨node, span⟩ := predicate
  cases node with
  | var name => rw [Term.writePredicate, if_neg (by simp)]
  | _ => cases h

namespace Grammar

open SparqlMetrics.Parser TwoRuns Cursor

section Openings
variable {ns : Namespaces} {signed : Bool} {node : Node} {l : Lexeme} {behind rest : Text}

theorem symbol_of_opened {m : Symbol} (h : Node.OpenedBy ns signed node (.symbol m) behind) :
    m = .plus ∨ m = .minus := by
  cases h with
  | sign hm => exact hm
  | iri spells => cases spells

theorem startsTriples_of_opened (h : Node.OpenedBy ns signed node l behind) :
    startsTriples l behind.first = true := by
  cases h with
  | iri spells => cases spells <;> rfl
  | truth hk => rcases hk with rfl | rfl <;> rfl
  | sign hm _ _ number => rcases hm with rfl | rfl <;> exact number
  | _ => rfl

theorem continuesString_of_opened (h : Node.OpenedBy ns signed node l behind) :
    l.continuesString = false := by
  cases h with
  | iri spells => cases spells <;> rfl
  | sign hm => rcases hm with rfl | rfl <;> rfl
  | _ => rfl

/-- Only a plus sign could be taken for a repetition mark. -/
theorem repetition?_of_opened (h : Node.OpenedBy ns signed node l behind)
    (unsigned : node.unsigned? = none) : repetition? l = none := by
  cases h with
  | iri spells => cases spells <;> rfl
  | @sign literal m _ hm _ plus _ =>
      rcases hm with rfl | rfl
      · have signed := plus rfl
        rw [Option.map_eq_none_iff.mp unsigned] at signed
        cases signed
      · rfl
  | _ => rfl

/-- The first lexeme of a term is a mark only if it is a sign. -/
theorem first_term (hns : ns.Labelled) {t : Term} (h : t.node.Legal signed)
    (clean : t.node.Clean) (parts : Parts rest) {m : Symbol} (other : m ≠ .plus ∧ m ≠ .minus) :
    (t.write ns ++ rest).first ≠ .symbol m := by
  obtain ⟨here, behind, opens, opened⟩ := opens_term hns h clean parts
  rw [Text.first_of_opens opens]
  rintro rfl
  rcases symbol_of_opened opened with rfl | rfl
  · exact other.1 rfl
  · exact other.2 rfl

theorem write_term_ne_nil (hns : ns.Labelled) {t : Term} (h : t.node.Legal signed) :
    t.write ns ≠ [] := by
  obtain ⟨node, span⟩ := t
  cases node with
  | iri value =>
      obtain ⟨b, s, same, _⟩ := Namespaces.head_writeIri hns value
      show ns.writeIri value ≠ []
      rw [same]
      exact List.cons_ne_nil _ _
  | literal l =>
      show l.write ns ≠ []
      cases h with
      | @number sign digits kind hsign allowed numeral =>
          obtain ⟨b, more, rfl, _⟩ := isDigit_head_numeral numeral
          exact List.append_ne_nil_of_right_ne_nil _ (List.cons_ne_nil _ _)
      | _ => exact List.cons_ne_nil _ _
  | blank label => exact List.cons_ne_nil _ _
  | var name => exact List.cons_ne_nil _ _

end Openings

section Properties
variable {ns : Namespaces} {level : Level} {s t rest : Text} {g : Prop} {v : Verb}
  {subject o : Term}

theorem fares_object (hns : ns.Labelled) {signed : Bool} {n : Nat} (h : o.node.Legal signed)
    (clean : o.node.Clean) (ends : EndsTerm rest) :
    Fares (object (Level.ofAllowance ns n)) (o.write ns) True (bare o, []) rest := by
  have noBracket := first_term hns h clean ends.parts (m := .lbracket) (by decide)
  have noParen := first_term hns h clean ends.parts (m := .lparen) (by decide)
  have read : Fares (do return (← varOrTerm (Level.ofAllowance ns n).namespaces, [])) (o.write ns)
      True (bare o, ([] : List Element)) rest := by
    rw [namespaces_ofAllowance]
    exact (fares_varOrTerm hns h clean ends).bind_pure rfl
  refine Reads.lexeme (l := (o.write ns ++ rest).first) rfl ?_
  split
  · next same => exact absurd same noBracket
  · next same => exact absurd same noParen
  · exact read

theorem fares_verb_variable (hns : ns.Labelled) {n : Nat} {predicate : Term}
    (isVar : predicate.node.isVar = true) (h : predicate.node.Legal true) (ends : EndsTerm rest) :
    Fares (verb (Level.ofAllowance ns n)) (predicate.write ns) True (.term (bare predicate)) rest ∧
      startsVerb (predicate.write ns ++ rest).first = true := by
  obtain ⟨node, span⟩ := predicate
  cases node with
  | var name =>
      have opens := opens_variable h ends.parts.stopsAt_isNameByte
      have first : (Term.write ns ⟨.var name, span⟩ ++ rest).first = .variableName name :=
        Text.first_of_opens opens
      refine ⟨Reads.lexeme first ?_, by rw [first]; rfl⟩
      rw [namespaces_ofAllowance]
      exact (fares_varOrTerm hns h trivial ends).map
  | _ => cases isVar

theorem fares_verb_path (hns : ns.Labelled) {n : Nat} {plus : Bool} {p : Path} (formed : p.IsFormed)
    (clean : p.Clean) (ends : EndsPath plus p rest) (noSlash : rest.first ≠ .symbol .slash)
    (noBar : rest.first ≠ .symbol .pipe) :
    Fares (verb (Level.ofAllowance ns n)) (p.write ns ++ plusText plus) (p.nesting ≤ n)
        (.ofPath ((p.under plus).rewrite .withoutSpans)) rest ∧
      startsVerb (p.write ns ++ plusText plus ++ rest).first = true := by
  have parts : Parts (plusText plus ++ rest) := by
    cases plus with
    | true => exact stopsAt_cons (by decide)
    | false => exact ends.parts rfl
  obtain ⟨l, behind, opens, starts, noVar, _⟩ := opens_path hns formed clean parts
  rw [← List.append_assoc] at opens
  have first := Text.first_of_opens opens
  have read := (readable_path hns formed clean).path n ends noSlash noBar
  refine ⟨Reads.lexeme first ?_, first ▸ starts⟩
  split
  · exact absurd rfl (noVar _)
  · exact read.map

/-- One object of a property. -/
theorem fares_objectElements (ho : Fares (object level) t True (o, []) rest)
    (bareSubject : subject.span.start = 0) :
    Fares (objectElements level subject v) t True [v.element subject o {}] rest := by
  have finish : (position >>= fun stop => pure (([] : List Element) ++
      [v.element subject o ⟨subject.span.start, stop⟩]) : Parser (List Element)) (before rest) =
      .ok ([v.element subject o {}], before rest) := by
    rw [bind_eq_of_ok (position_before rest), bareSubject]
    rfl
  exact Fares.bind_pure ho finish

/-- One property with one object, in front of a text that goes on with neither. -/
theorem fares_propertyList (hv : Fares (verb level) s g v (t ++ rest))
    (starts : startsVerb (s ++ (t ++ rest)).first = true)
    (ho : Fares (object level) t True (o, []) rest) (bareSubject : subject.span.start = 0)
    (noComma : rest.first ≠ .symbol .comma) (noSemicolon : rest.first ≠ .symbol .semicolon)
    (required : Bool) :
    Fares (propertyList level subject required) (s ++ t) g [v.element subject o {}] rest := by
  have one : Fares (property level subject) (s ++ t) g [v.element subject o {}] rest := by
    refine (Fares.bind hv (Fares.bind_pure (fares_objectElements ho bareSubject) ?_)).congr
      (and_iff_left trivial)
    have idle : (do if ← tryMark .comma then some <$> objectElements level subject v else pure none)
        (before rest) = .ok (none, before rest) := bind_eq_of_ok (tryMark_before noComma)
    rw [bind_eq_of_ok (many_before idle)]
    rfl
  have idle : nextProperty level subject (before rest) = .ok (none, before rest) := by
    have other : ((before rest).token.lexeme == Lexeme.symbol .semicolon) = false :=
      beq_eq_false_iff_ne.mpr noSemicolon
    have here : isAt .semicolon (before rest) = .ok (false, before rest) := by rw [isAt, other]
    rw [nextProperty, bind_eq_of_ok here]
    rfl
  rw [← List.append_assoc] at starts
  refine Reads.lexeme rfl ?_
  rw [if_pos starts]
  refine Fares.bind_pure one ?_
  rw [bind_eq_of_ok (many_before idle)]
  rfl

/-- A subject with its properties. -/
theorem fares_triplesSameSubject (hns : ns.Labelled) {signed : Bool} {n : Nat} {x : List Element}
    (h : subject.node.Legal signed) (clean : subject.node.Clean) (ends : EndsTerm (s ++ rest))
    (hp : Fares (propertyList (Level.ofAllowance ns n) (bare subject) true) s g x rest) :
    Fares (triplesSameSubject (Level.ofAllowance ns n)) (subject.write ns ++ s) g x rest := by
  have noBracket := first_term hns h clean ends.parts (m := .lbracket) (by decide)
  have noParen := first_term hns h clean ends.parts (m := .lparen) (by decide)
  rw [← List.append_assoc] at noBracket noParen
  have read : Fares (do
      let subject ← varOrTerm (Level.ofAllowance ns n).namespaces
      propertyList (Level.ofAllowance ns n) subject true) (subject.write ns ++ s) g x rest := by
    rw [namespaces_ofAllowance]
    exact Fares.then (fares_varOrTerm hns h clean ends) hp
  refine Reads.lexeme rfl ?_
  split
  · next same => exact absurd same noParen
  · next same => exact absurd same noBracket
  · exact read

end Properties

section Drifting
variable {ns : Namespaces} {p q : Path} {subject object : Term} {span : Span} {rest : Text}

/-- What is read in place of an element whose verb is a path. -/
theorem rewrite_ofPath (h : p.IsFormed) :
    ((Verb.ofPath p).element subject object span).rewrite reread =
      (drifted? (bare subject) (p.rewrite .withoutSpans) (bare object) {}).getD
        ((Verb.ofPath (p.rewrite .withoutSpans)).element (bare subject) (bare object) {}) := by
  cases p with
  | step predicate =>
      have isIri : (predicate.rewrite reread).node.isIri = true := by
        rw [Term.rewrite, Node.rewrite_of_iri rfl]
        exact h
      exact if_pos isIri
  | _ =>
      rw [← Path.rewrite_reread]
      rfl

theorem ofPath_of_repeatLast? (h : p.repeatLast? = some q) : Verb.ofPath q = .path q := by
  cases p with
  | step predicate => cases h; rfl
  | negated inner => cases h; rfl
  | repeated times inner => cases h
  | inverse inner =>
      cases inner with
      | repeated times inner => cases h
      | _ => cases h; rfl
  | join how left right =>
      rw [Path.repeatLast?] at h
      split at h
      · cases h
        rfl
      · obtain ⟨part, _, rfl⟩ := Option.map_eq_some_iff.mp h
        rfl

/-- The object gives its sign to the path. -/
theorem rewrite_of_taken (h : p.IsFormed) (repeats : p.repeatLast? = some q) {node : Node}
    (unsigned : object.node.unsigned? = some node) :
    ((Verb.ofPath p).element subject object span).rewrite reread =
      (Verb.ofPath (q.rewrite .withoutSpans)).element (bare subject) ⟨node, {}⟩ {} := by
  have same : (bare object).node.unsigned? = some node := by
    rw [bare, Term.rewrite, Node.rewrite_of_iri rfl, unsigned]
  have repeats' : (p.rewrite .withoutSpans).repeatLast? = some (q.rewrite .withoutSpans) := by
    rw [Path.repeatLast?_rewrite, repeats]
    rfl
  rw [rewrite_ofPath h, drifted?, same, repeats', ofPath_of_repeatLast? repeats']
  rfl

/-- The object keeps what it is written with. -/
theorem rewrite_of_kept (h : p.IsFormed)
    (kept : p.repeatLast? = none ∨ object.node.unsigned? = none) :
    ((Verb.ofPath p).element subject object span).rewrite reread =
      (Verb.ofPath (p.rewrite .withoutSpans)).element (bare subject) (bare object) {} := by
  have undrifted : drifted? (bare subject) (p.rewrite .withoutSpans) (bare object) {} = none := by
    rw [← Path.rewrite_reread]
    exact drifted?_of_kept kept
  rw [rewrite_ofPath h, undrifted]
  rfl

theorem continuesString_of_startsVerb {l : Lexeme} (h : startsVerb l = true) :
    l.continuesString = false := by
  cases l with
  | languageTag tag => cases h
  | symbol m => cases m <;> first | rfl | cases h
  | _ => rfl

/-- A text that opens with a verb behind a space may follow a term. -/
theorem endsTerm_verb {s : Text} (h : startsVerb s.first = true) : EndsTerm (Byte.space :: s) where
  parts := stopsAt_cons (by decide)
  noTag := by
    rw [Text.first_space s (by decide)]
    exact continuesString_of_startsVerb h

/-- A subject, a path with or without the sign that a drifting path loses, and an object's text. -/
theorem fares_underPath (hns : ns.Labelled) {n : Nat} (hs : subject.node.Legal true)
    (cleanSubject : subject.node.Clean) (formed : p.IsFormed) (clean : p.Clean) {b : Bool}
    {s : Text} {o : Term} (endsPath : EndsPath b p (s ++ rest))
    (noSlash : (s ++ rest).first ≠ .symbol .slash) (noBar : (s ++ rest).first ≠ .symbol .pipe)
    (read : Fares (Grammar.object (Level.ofAllowance ns n)) s True (o, []) rest)
    (noComma : rest.first ≠ .symbol .comma) (noSemicolon : rest.first ≠ .symbol .semicolon) :
    Fares (triplesSameSubject (Level.ofAllowance ns n))
      (subject.write ns ++ Byte.space :: (p.write ns ++ plusText b ++ s)) (p.nesting ≤ n)
      [(Verb.ofPath ((p.under b).rewrite .withoutSpans)).element (bare subject) o {}] rest := by
  obtain ⟨readVerb, starts⟩ := fares_verb_path hns (n := n) formed clean endsPath noSlash noBar
  have bareSubject : (bare subject).span.start = 0 := rfl
  have properties := fares_propertyList readVerb starts read bareSubject noComma noSemicolon true
  refine fares_triplesSameSubject hns hs cleanSubject ?_ (properties.space (by decide) ?_)
  · rw [List.cons_append, List.append_assoc]
    exact endsTerm_verb starts
  · intro blank
    exact Path.write_ne_nil hns formed
      (List.append_eq_nil_iff.mp (List.append_eq_nil_iff.mp blank).1).1

section PathTriple

variable (hns : ns.Labelled) {n : Nat} (span : Span) (hs : subject.node.Legal true)
  (cleanSubject : subject.node.Clean) (formed : p.IsFormed) (clean : p.Clean)
  (ho : object.node.Legal true) (cleanObject : object.node.Clean) (ends : EndsTerm rest)
  (noComma : rest.first ≠ .symbol .comma) (noSemicolon : rest.first ≠ .symbol .semicolon)
include hns hs cleanSubject formed clean ho cleanObject ends noComma noSemicolon

/-- A path or an object that does not drift. -/
theorem fares_keptTriple (kept : p.repeatLast? = none ∨ object.node.unsigned? = none) :
    Fares (triplesSameSubject (Level.ofAllowance ns n))
      (subject.write ns ++ Byte.space :: p.write ns ++ Byte.space :: object.write ns)
      (p.nesting ≤ n) [((Verb.ofPath p).element subject object span).rewrite reread] rest := by
  obtain ⟨l, behind, opens, opened⟩ := opens_term hns ho cleanObject ends.parts
  have first : Text.first (Byte.space :: object.write ns ++ rest) =
      (object.write ns ++ rest).first :=
    Text.first_space (b := Byte.space) _ (by decide)
  have endsPath : EndsPath false p (Byte.space :: object.write ns ++ rest) := by
    refine .of_kept (stopsAt_cons (by decide)) fun repeats => ?_
    show repetition? (Text.first (Byte.space :: object.write ns ++ rest)) = none
    rw [first, Text.first_of_opens opens]
    rcases kept with stays | stays
    · rw [stays] at repeats
      cases repeats
    · exact repetition?_of_opened opened stays
  have noSlash := first_term hns ho cleanObject ends.parts (m := .slash) (by decide)
  have noBar := first_term hns ho cleanObject ends.parts (m := .pipe) (by decide)
  have read := fares_underPath hns (n := n) hs cleanSubject formed clean endsPath (first ▸ noSlash)
    (first ▸ noBar)
    ((fares_object hns ho cleanObject ends).space (by decide) (write_term_ne_nil hns ho)) noComma
    noSemicolon
  rw [plusText, if_neg (by decide), List.append_nil] at read
  rw [rewrite_of_kept formed kept, List.append_assoc]
  exact read

/-- The sign of a number behind a repeated path is read as part of the path. -/
theorem fares_takenTriple {q : Path} {node : Node} (repeats : p.repeatLast? = some q)
    (unsigned : object.node.unsigned? = some node) :
    Fares (triplesSameSubject (Level.ofAllowance ns n))
      (subject.write ns ++ Byte.space :: p.write ns ++ Byte.space :: object.write ns)
      (p.nesting ≤ n) [((Verb.ofPath p).element subject object span).rewrite reread] rest := by
  obtain ⟨legal, keepsClean, written⟩ := Node.unsigned_legal ho unsigned ns object.span
  have isClean := keepsClean cleanObject
  let o : Term := ⟨node, {}⟩
  have noSlash := first_term hns (t := o) legal isClean ends.parts (m := .slash) (by decide)
  have noBar := first_term hns (t := o) legal isClean ends.parts (m := .pipe) (by decide)
  have readObject : Fares (Grammar.object (Level.ofAllowance ns n)) (o.write ns) True (o, []) rest := by
    simpa only [o, bare_eq] using fares_object hns (o := o) legal isClean ends
  have read := fares_underPath hns (b := true) hs cleanSubject formed clean
    (.of_taken (by rw [repeats]; rfl)) noSlash noBar readObject noComma noSemicolon
  have under : p.under true = q := by rw [Path.under, if_pos rfl, repeats]; rfl
  have shape : subject.write ns ++ Byte.space :: p.write ns ++ Byte.space :: object.write ns =
      subject.write ns ++ Byte.space :: (p.write ns ++ plusText true ++ o.write ns) := by
    show _ ++ Byte.space :: Term.write ns ⟨object.node, object.span⟩ = _
    rw [written]
    simp [plusText, Term.write, o]
  rw [under] at read
  rw [rewrite_of_taken formed repeats unsigned, shape]
  exact read

/-- A subject, a path and an object, in front of a text that goes on with neither. -/
theorem fares_pathTriple :
    Fares (triplesSameSubject (Level.ofAllowance ns n))
      (subject.write ns ++ Byte.space :: p.write ns ++ Byte.space :: object.write ns)
      (p.nesting ≤ n) [((Verb.ofPath p).element subject object span).rewrite reread] rest := by
  have kept := fares_keptTriple hns (n := n) span hs cleanSubject formed clean ho cleanObject ends
    noComma noSemicolon
  cases repeats : p.repeatLast? with
  | none => exact kept (.inl repeats)
  | some q =>
      cases unsigned : object.node.unsigned? with
      | none => exact kept (.inr unsigned)
      | some node =>
          exact fares_takenTriple hns span hs cleanSubject formed clean ho cleanObject ends noComma
            noSemicolon repeats unsigned

end PathTriple

/-- A triple with a variable between its subject and its object. -/
theorem fares_variableTriple (hns : ns.Labelled) {n : Nat} {predicate : Term}
    (hs : subject.node.Legal true) (cleanSubject : subject.node.Clean)
    (isVar : predicate.node.isVar = true) (hp : predicate.node.Legal true)
    (ho : object.node.Legal true) (cleanObject : object.node.Clean) (ends : EndsTerm rest)
    (noComma : rest.first ≠ .symbol .comma) (noSemicolon : rest.first ≠ .symbol .semicolon) :
    Fares (triplesSameSubject (Level.ofAllowance ns n))
      (subject.write ns ++ Byte.space :: predicate.write ns ++ Byte.space :: object.write ns) True
      [.triple ⟨bare subject, bare predicate, bare object, {}⟩] rest := by
  obtain ⟨l, behind, opens, opened⟩ := opens_term hns ho cleanObject ends.parts
  have first : Text.first (Byte.space :: object.write ns ++ rest) = l :=
    (Text.first_space (b := Byte.space) _ (by decide)).trans (Text.first_of_opens opens)
  have endsVerb : EndsTerm (Byte.space :: object.write ns ++ rest) := by
    exact ⟨stopsAt_cons (by decide), first ▸ continuesString_of_opened opened⟩
  obtain ⟨readVerb, starts⟩ := fares_verb_variable hns (n := n) isVar hp endsVerb
  have bareSubject : (bare subject).span.start = 0 := rfl
  have properties := fares_propertyList readVerb starts
    ((fares_object hns ho cleanObject ends).space (by decide) (write_term_ne_nil hns ho)) bareSubject
    noComma noSemicolon true
  rw [List.append_assoc]
  refine fares_triplesSameSubject hns hs cleanSubject ?_ (properties.space (by decide)
    (List.append_ne_nil_of_left_ne_nil (write_term_ne_nil hns hp) _))
  simpa only [List.cons_append, List.append_assoc] using endsTerm_verb starts

/-- Every triple and path element is read back, the object without a sign that its path takes. -/
theorem fares_sentence (hns : ns.Labelled) {e : Element} (h : e.isSentence = true)
    (printable : e.Everywhere printableChecks) {n : Nat} (ends : EndsTerm rest)
    (noComma : rest.first ≠ .symbol .comma) (noSemicolon : rest.first ≠ .symbol .semicolon) :
    Fares (triplesSameSubject (Level.ofAllowance ns n)) (e.sentence ns) (e.Fits n)
      [e.rewrite reread] rest := by
  cases e with
  | triple t =>
      obtain ⟨⟨⟨formed, _⟩, _⟩, ⟨hs, cleanSubject⟩, ⟨hp, cleanPredicate⟩, ⟨ho, cleanObject⟩⟩ :=
        printable
      have fits := iff_of_true trivial (Element.fits_triple (n := n) (t := t))
      rcases formed with isIri | isVar
      · have clean : (Path.step t.predicate).Clean := by
          obtain ⟨subject, ⟨node, span⟩, object, _⟩ := t
          cases node with
          | iri value =>
              intro iri member
              rw [List.mem_singleton.mp member]
              exact ⟨hp, cleanPredicate⟩
          | _ => cases isIri
        have formed : (Path.step t.predicate).IsFormed := isIri
        have read := fares_pathTriple hns (n := n) t.span hs cleanSubject formed clean ho
          cleanObject ends noComma noSemicolon
        rw [Element.sentence, Term.writePredicate_iri isIri]
        exact read.congr ((iff_of_true (Nat.zero_le n) trivial).trans fits)
      · have read := fares_variableTriple hns (n := n) hs cleanSubject isVar hp ho cleanObject ends
          noComma noSemicolon
        have stays : (Element.triple t).rewrite reread =
            .triple ⟨bare t.subject, bare t.predicate, bare t.object, {}⟩ := by
          have noIri : (t.rewrite reread).predicate.node.isIri = false := by
            obtain ⟨subject, ⟨node, span⟩, object, _⟩ := t
            cases node <;> first | rfl | cases isVar
          exact if_neg (Bool.eq_false_iff.mp noIri)
        rw [Element.sentence, Term.writePredicate_variable isVar, stays]
        exact read.congr fits
  | path subject p object span =>
      obtain ⟨⟨⟨formed, absolute⟩, cleanPath⟩, ⟨hs, cleanSubject⟩, ⟨ho, cleanObject⟩⟩ := printable
      have read := fares_pathTriple hns (n := n) span hs cleanSubject formed.2
        (fun iri member => ⟨absolute iri member, cleanPath iri member⟩) ho cleanObject ends noComma
        noSemicolon
      have same : (Verb.ofPath p).element subject object span = .path subject p object span := by
        cases p with
        | step predicate => cases formed.1
        | _ => rfl
      rw [same] at read
      exact read.congr Element.fits_path.symm
  | _ => cases h

theorem startsTriples_sentence (hns : ns.Labelled) {e : Element} (h : e.isSentence = true)
    (printable : e.Everywhere printableChecks) (rest : Text) :
    startsTriples (e.sentence ns ++ rest).first (e.sentence ns ++ rest).second = true := by
  have subject : ∀ {t : Term} {s : Text}, t.node.Legal true → t.node.Clean → Parts s →
      startsTriples (t.write ns ++ s).first (t.write ns ++ s).second = true := by
    intro t s legal clean parts
    obtain ⟨l, behind, opens, opened⟩ := opens_term hns legal clean parts
    rw [Text.first_of_opens opens, Text.second_of_opens opens]
    exact startsTriples_of_opened opened
  cases e with
  | triple t =>
      rw [Element.sentence, List.append_assoc, List.append_assoc]
      exact subject printable.2.1.1 printable.2.1.2 (stopsAt_cons (by decide))
  | path s p o span =>
      rw [Element.sentence, List.append_assoc, List.append_assoc]
      exact subject printable.2.1.1 printable.2.1.2 (stopsAt_cons (by decide))
  | _ => cases h

theorem Reads.atTriples {β : Type} {o : Except ParseError (β × Cursor) → Prop} {f : Bool → Parser β}
    {s : Text} {g : Prop} {y : β} (h : startsTriples (s ++ rest).first (s ++ rest).second = true)
    (hf : Reads o (f true) s g y rest) : Reads o (atTriples >>= f) s g y rest :=
  Reads.peek (by rw [← h]; rfl) hf

/-- The dot behind a sentence. -/
theorem opens_dot (rest : Text) : Opens (utf8 " ." ++ rest) (.symbol .dot) rest :=
  (opens_byte (b := Byte.dot) (s := .dot) (by decide) rest).space (b := Byte.space) (by decide)

theorem endsTerm_dot (rest : Text) : EndsTerm (utf8 " ." ++ rest) where
  parts := stopsAt_cons (by decide)
  noTag := by
    rw [Text.first_of_opens (opens_dot rest)]
    rfl

theorem sentence_ne_nil {e : Element} (h : e.isSentence = true) : e.sentence ns ≠ [] := by
  cases e with
  | triple t => simp [Element.sentence]
  | path s p o span => simp [Element.sentence]
  | _ => cases h

/-- A sentence and the dot behind it. -/
theorem fares_sentence_dot (hns : ns.Labelled) {α : Type} {e : Element} (h : e.isSentence = true)
    (printable : e.Everywhere printableChecks) {n : Nat} {f : List Element → Parser α} {x : α}
    (hf : Fares (f [e.rewrite reread]) (utf8 " .") True x rest) :
    Fares (triplesSameSubject (Level.ofAllowance ns n) >>= f) (e.sentence ns ++ utf8 " .") (e.Fits n)
      x rest := by
  have first := Text.first_of_opens (opens_dot rest)
  have read := fares_sentence hns h printable (n := n) (endsTerm_dot rest) (by rw [first]; nofun)
    (by rw [first]; nofun)
  exact (Fares.bind read hf).congr (and_iff_left trivial)

/-- A line with a sentence among the members of a group. -/
theorem fares_triplesBlock (hns : ns.Labelled) {e : Element} (h : e.isSentence = true)
    (printable : e.Everywhere printableChecks) (n indent : Nat) :
    Fares (triplesBlock (Level.ofAllowance ns n)) (e.write ns indent).text (e.Fits n)
      [e.rewrite reread] rest := by
  have starts := startsTriples_sentence hns h printable (utf8 " ." ++ Byte.newline :: rest)
  rw [← List.append_assoc] at starts
  rw [text_write_sentence h]
  refine Reads.line (Reads.lexeme rfl (Reads.atTriples starts ?_)) indent
    (List.append_ne_nil_of_left_ne_nil (sentence_ne_nil h) _)
  exact fares_sentence_dot hns h printable ((fares_tryMark (opens_dot _)).bind_pure rfl)

/-- A line with a triple of a template. -/
theorem fares_templateTriples (hns : ns.Labelled) {e : Element} (h : e.isSentence = true)
    (printable : e.Everywhere printableChecks) (n indent : Nat) :
    Fares (templateTriples? (Level.ofAllowance ns n) true) (e.write ns indent).text (e.Fits n)
      (some (true, [e.rewrite reread])) rest := by
  have starts := startsTriples_sentence hns h printable (utf8 " ." ++ Byte.newline :: rest)
  rw [← List.append_assoc] at starts
  have noBrace : (e.sentence ns ++ utf8 " ." ++ Byte.newline :: rest).first ≠ .symbol .rbrace := by
    intro same
    rw [same] at starts
    cases starts
  rw [text_write_sentence h]
  refine Reads.line (Reads.isAt (beq_eq_false_iff_ne.mpr noBrace) (Reads.atTriples starts ?_)) indent
    (List.append_ne_nil_of_left_ne_nil (sentence_ne_nil h) _)
  exact fares_sentence_dot hns h printable ((fares_tryMark (opens_dot _)).bind_pure rfl)

end Drifting

end Grammar

end SparqlMetrics
