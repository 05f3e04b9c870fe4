import SparqlMetrics.Proofs.Reading.Terms
import SparqlMetrics.Proofs.Text.Byte
import SparqlMetrics.Proofs.Tree.Nesting

/-!
# Reading written paths

A path is read back from its written form, part by part from the inside: steps and negated sets, then
elements with their repetition mark, inverses, sequences and alternatives. In front of a plus sign
that belongs to the object, it is read with its last element repeated instead.
-/
namespace SparqlMetrics

open Lexeme

/-- A byte that would go on with a mark of a path in front of it. -/
def Byte.marksPath (b : Byte) : Bool := b == Byte.pipe || b == Byte.equals || b == Byte.caret

theorem Byte.marksPath_eq_false {b : Byte}
    (h : b = Byte.less ∨ b = Byte.colon ∨ b.isNameStart = true) : b.marksPath = false := by
  rcases h with rfl | rfl | start
  · decide
  · decide
  · exact Byte.forall_of_digits (P := fun b => b.isNameStart = true → b.marksPath = false)
      (by decide) b start

/-- An IRI in writing opens with a bracket, a letter or a colon. -/
theorem Namespaces.head_writeIri {ns : Namespaces} (h : ns.Labelled) (iri : Text) :
    ∃ b s, ns.writeIri iri = b :: s ∧ (b = Byte.less ∨ b = Byte.colon ∨ b.isNameStart = true) := by
  unfold writeIri
  split
  · next entry found =>
    obtain ⟨member, _⟩ := canShorten_of_entryFor? found
    obtain ⟨label, value⟩ := entry
    cases label with
    | nil => exact ⟨_, _, rfl, .inr (.inl rfl)⟩
    | cons b more =>
        have isLabel := h.label _ member
        rcases isLabel with noLabel | ⟨start, _⟩
        · cases noLabel
        · exact ⟨b, _, rfl, .inr (.inr (by simpa using start))⟩
  · exact ⟨_, _, rfl, .inl rfl⟩

/-- The IRIs of a path, absolute and fit for angle brackets. -/
def Path.Clean (p : Path) : Prop := ∀ iri ∈ p.iris, Iri.hasScheme iri = true ∧ IsCleanIri iri

namespace Path

theorem stopsAt_step {ns : Namespaces} (hns : ns.Labelled) {predicate : Term}
    (h : predicate.node.isIri = true) (rest : Text) :
    StopsAt Byte.marksPath ((step predicate).write ns ++ rest) := by
  obtain ⟨node, span⟩ := predicate
  cases node with
  | iri value =>
      rw [write, Term.writePredicate]
      simp only [Node.isResource, if_true]
      split
      · exact stopsAt_cons (by decide)
      · obtain ⟨b, s, same, head⟩ := Namespaces.head_writeIri hns value
        show StopsAt _ (ns.writeIri value ++ rest)
        rw [same]
        exact stopsAt_cons (Byte.marksPath_eq_false head)
  | _ => cases h

theorem stopsAt_element {ns : Namespaces} (hns : ns.Labelled) {p : Path} (h : p.isElement = true)
    (formed : p.IsFormed) (rest : Text) : StopsAt Byte.marksPath (p.write ns ++ rest) := by
  have primary : ∀ p : Path, p.isPrimary = true → p.IsFormed → ∀ rest,
      StopsAt Byte.marksPath (p.write ns ++ rest) := by
    intro p isPrimary formed rest
    cases p with
    | step predicate => exact stopsAt_step hns formed rest
    | negated inner => exact stopsAt_cons (by decide)
    | _ => cases isPrimary
  cases p with
  | repeated times inner =>
      rw [write]
      cases found : inner.isPrimary with
      | true =>
          rw [bracketedIf, if_neg (by decide), List.append_assoc]
          exact primary inner found formed _
      | false => exact stopsAt_cons (by decide)
  | step predicate => exact primary (.step predicate) rfl formed rest
  | negated inner => exact primary (.negated inner) rfl formed rest
  | inverse inner => cases h
  | join how left right => cases h

theorem write_ne_nil {ns : Namespaces} (hns : ns.Labelled) {p : Path} (h : p.IsFormed) :
    p.write ns ≠ [] := by
  cases p with
  | step predicate =>
      obtain ⟨node, span⟩ := predicate
      cases node with
      | iri value =>
          rw [write, Term.writePredicate]
          simp only [Node.isResource, if_true]
          split
          · exact List.cons_ne_nil _ _
          · obtain ⟨b, s, same, _⟩ := Namespaces.head_writeIri hns value
            show ns.writeIri value ≠ []
            rw [same]
            exact List.cons_ne_nil _ _
      | _ => cases h
  | inverse inner => exact List.cons_ne_nil _ _
  | negated inner => exact List.cons_ne_nil _ _
  | repeated times inner => simp [write]
  | join how left right => simp [write]

end Path

namespace Grammar

open SparqlMetrics.Parser TwoRuns Cursor SparqlMetrics.Path

section Members
variable {ns : Namespaces} {rest : Text}

/-- A step in writing opens with a name or the word for the type property. -/
theorem opens_step (hns : ns.Labelled) {predicate : Term} (h : predicate.node.isIri = true)
    (clean : (step predicate).Clean) (parts : Parts rest) :
    ∃ iri l, predicate.node = .iri iri ∧ Opens ((step predicate).write ns ++ rest) l rest ∧
      (l.isTypeWord = true ∧ iri = Iri.rdfType ∨ SpellsIri ns l iri) := by
  obtain ⟨node, span⟩ := predicate
  cases node with
  | iri value =>
      rw [write, Term.writePredicate]
      simp only [Node.isResource, if_true]
      split
      · next same =>
        have word : ofWord (utf8 "a") = .identifier (utf8 "a") := by decide
        have opens := @opens_word (utf8 "a") _ (by decide) parts.breaks
        rw [word] at opens
        exact ⟨value, _, rfl, opens, .inl ⟨by decide, Node.iri.inj same⟩⟩
      · obtain ⟨absolute, isClean⟩ := clean value (List.mem_singleton_self _)
        obtain ⟨l, opens, spells⟩ := opens_writeIri hns absolute isClean parts
        exact ⟨value, l, rfl, opens, .inr spells⟩
  | _ => cases h

theorem fares_iriStep (hns : ns.Labelled) {predicate : Term} (h : predicate.node.isIri = true)
    (clean : (step predicate).Clean) (parts : Parts rest) :
    Fares (iriStep ns) ((step predicate).write ns) True
      ((step predicate).rewrite .withoutSpans) rest := by
  obtain ⟨iri, l, node, opens, word | spells⟩ := opens_step hns h clean parts
  · refine Reads.token (Text.first_of_opens opens) ?_
    rw [if_pos word.1]
    refine (fares_skip opens).bind_pure ?_
    obtain ⟨_, span⟩ := predicate
    cases node
    rw [word.2]
    rfl
  · refine Reads.token (Text.first_of_opens opens) ?_
    rw [if_neg (by cases spells <;> simp [isTypeWord])]
    have read := (fares_iriTerm spells opens).map (h := Path.step)
    obtain ⟨_, span⟩ := predicate
    cases node
    exact read

/-- A member of a negated set opens with no closing bracket. -/
theorem fares_setMember (hns : ns.Labelled) {p : Path} (h : p.IsMember) (clean : p.Clean)
    (parts : Parts rest) :
    Fares (setMember ns) (p.write ns) True (p.rewrite .withoutSpans) rest ∧
      (p.write ns ++ rest).first ≠ .symbol .rparen := by
  unfold IsMember at h
  split at h
  · obtain ⟨iri, l, _, opens, spelled⟩ := opens_step hns h clean parts
    have first := Text.first_of_opens opens
    have other : ∀ m, l ≠ .symbol m := by
      rintro m rfl
      rcases spelled with ⟨word, _⟩ | spells
      · cases word
      · cases spells
    exact ⟨Reads.noMark (first ▸ other _) (fares_iriStep hns h clean parts), first ▸ other _⟩
  · next predicate =>
    have caret := opens_caret ((stopsAt_step hns h rest).weaken fun b unmarked => by
      simp only [Byte.marksPath, Bool.or_eq_false_iff] at unmarked
      exact unmarked.2)
    refine ⟨?_, ?_⟩
    · exact Fares.then (s := [Byte.caret]) (fares_tryMark caret)
        (fares_iriStep hns h clean parts).map
    · show Text.first (Byte.caret :: ((step predicate).write ns ++ rest)) ≠ _
      rw [Text.first_of_opens caret]
      nofun
  · cases h

theorem fares_joinAfter (how : PathJoin) (left : Path) {m : Symbol} {b : Byte} {part : Parser Path}
    {x : Path} {s : Text} {g : Prop} (opens : Opens (b :: (s ++ rest)) (.symbol m) (s ++ rest))
    (hp : Fares part s g x rest) :
    Fares (joinAfter m how part left) (b :: s) g (some (.join how left x)) rest :=
  Fares.then (s := [b]) (fares_tryMark opens) (hp.bind_pure rfl)

theorem joinAfter_before {m : Symbol} {how : PathJoin} {part : Parser Path} {left : Path} {s : Text}
    (h : s.first ≠ .symbol m) :
    joinAfter m how part left (before s) = .ok (none, before s) :=
  bind_eq_of_ok (tryMark_before h)

theorem avoids_pipe {s : Text} (h : StopsAt Byte.marksPath s) : Avoids Byte.pipe s :=
  h.weaken fun b unmarked => by
    simp only [Byte.marksPath, Bool.or_eq_false_iff] at unmarked
    exact unmarked.1.1

theorem avoids_caret {s : Text} (h : StopsAt Byte.marksPath s) : Avoids Byte.caret s :=
  h.weaken fun b unmarked => by
    simp only [Byte.marksPath, Bool.or_eq_false_iff] at unmarked
    exact unmarked.2

/-- A part of a path that is an element or the inverse of one may follow a bar. -/
theorem avoids_pipe_member (hns : ns.Labelled) {p : Path} (h : p.IsMember) (rest : Text) :
    Avoids Byte.pipe (p.write ns ++ rest) := by
  unfold IsMember at h
  split at h
  · exact avoids_pipe (stopsAt_step hns h rest)
  · exact stopsAt_cons (by decide)
  · cases h

/-- The members of a negated set are read one after the other. -/
theorem gathers_members (hns : ns.Labelled) {p : Path} (h : p.IsMemberChain) (clean : p.Clean)
    (parts : Parts rest) :
    Gathers Fails (setMember ns >>= repeatFrom (joinAfter .pipe .alternative (setMember ns)))
      (joinAfter .pipe .alternative (setMember ns)) (p.write ns) True (p.rewrite .withoutSpans)
      rest ∧ (p.write ns ++ rest).first ≠ .symbol .rparen := by
  have member : ∀ p : Path, p.IsMember → p.Clean → ∀ rest, Parts rest →
      Gathers Fails (setMember ns >>= repeatFrom (joinAfter .pipe .alternative (setMember ns)))
        (joinAfter .pipe .alternative (setMember ns)) (p.write ns) True (p.rewrite .withoutSpans)
        rest ∧ (p.write ns ++ rest).first ≠ .symbol .rparen := by
    intro p h clean rest parts
    obtain ⟨read, first⟩ := fares_setMember hns h clean parts
    exact ⟨read.gathers (extends_fails _), first⟩
  induction p generalizing rest with
  | join how left right ihLeft _ =>
      cases how with
      | sequence => cases h
      | alternative =>
          obtain ⟨hleft, hright⟩ := h
          have cleanLeft : left.Clean := fun iri hi => clean iri (List.mem_append_left _ hi)
          have cleanRight : right.Clean := fun iri hi => clean iri (List.mem_append_right _ hi)
          have shape : (Path.join .alternative left right).write ns =
              left.write ns ++ Byte.pipe :: right.write ns := by
            have plain : right.isJoin = false := by
              cases right <;> first | rfl | exact hright.elim
            rw [write, plain]
            cases left <;> first | rfl | (rename_i how _ _; cases how <;> rfl)
          have readRight := (fares_setMember hns hright cleanRight parts).1
          have bar : Parts (Byte.pipe :: right.write ns ++ rest) := stopsAt_cons (by decide)
          obtain ⟨readLeft, first⟩ := ihLeft hleft cleanLeft bar
          have opens := opens_pipe (avoids_pipe_member hns hright rest)
          rw [shape]
          refine ⟨?_, ?_⟩
          · have readBoth := readLeft.extend (extends_fails _)
              (fares_joinAfter .alternative (left.rewrite .withoutSpans) opens readRight)
              (List.cons_ne_nil _ _)
            exact readBoth.congr and_self_iff
          · rw [List.append_assoc]
            exact first
  | _ => exact member _ h clean rest parts

theorem avoids_equals_set (hns : ns.Labelled) {inner : Path}
    (h : inner = .placeholder ∨ inner.IsMemberChain) (rest : Text) :
    Avoids Byte.equals (bracketedIf inner.isJoin (inner.write ns) ++ rest) := by
  cases inner with
  | step predicate =>
      rcases h with same | isIri
      · cases same
        exact stopsAt_cons (by decide)
      · refine (stopsAt_step hns isIri rest).weaken fun b unmarked => ?_
        simp only [Byte.marksPath, Bool.or_eq_false_iff] at unmarked
        exact unmarked.1.2
  | inverse inner => exact stopsAt_cons (by decide)
  | join how left right => exact stopsAt_cons (by decide)
  | repeated times inner =>
      rcases h with same | absurdity
      · cases same
      · exact absurdity.elim
  | negated inner =>
      rcases h with same | absurdity
      · cases same
      · exact absurdity.elim

/-- A negated set is read behind its exclamation mark. -/
theorem fares_negatedSet (hns : ns.Labelled) {inner : Path}
    (h : inner = .placeholder ∨ inner.IsMemberChain) (clean : inner.Clean) (parts : Parts rest) :
    Fares (negatedSet ns) (bracketedIf inner.isJoin (inner.write ns)) True
      ((Path.negated inner).rewrite .withoutSpans) rest := by
  have close := opens_byte (b := Byte.rparen) (s := .rparen) (by decide) rest
  have member : inner.IsMember →
      Fares (negatedSet ns) (inner.write ns) True ((Path.negated inner).rewrite .withoutSpans)
        rest := by
    intro h
    obtain ⟨iri, l, opens⟩ : ∃ l behind, Opens (inner.write ns ++ rest) l behind ∧
        l ≠ .symbol .lparen := by
      unfold IsMember at h
      split at h
      · obtain ⟨iri, l, _, opens, spelled⟩ := opens_step hns h clean parts
        refine ⟨l, rest, opens, ?_⟩
        rintro rfl
        rcases spelled with ⟨word, _⟩ | spells
        · cases word
        · cases spells
      · next predicate =>
        exact ⟨_, _, opens_caret (avoids_caret (stopsAt_step hns h rest)), nofun⟩
      · cases h
    refine Reads.noMark ?_ (fares_setMember hns h clean parts).1.map
    rw [Text.first_of_opens opens.1]
    exact opens.2
  rcases h with rfl | chain
  · have opens := opens_plain (s := .lparen) (by decide) (Byte.rparen :: rest)
    refine Fares.then (s := [Byte.lparen]) (t := [Byte.rparen]) (fares_tryMark opens) ?_
    refine Fares.then (s := []) (x := Path.placeholder) ?_ ((fares_mark _ close).bind_pure rfl)
    refine Reads.isAt (b := true) ?_ (reads_nothing rfl)
    show (Text.first (Byte.rparen :: rest) == .symbol .rparen) = true
    rw [Text.first_of_opens close]
    rfl
  · cases joined : inner.isJoin with
    | false =>
        refine member ?_
        cases inner with
        | join how left right => cases joined
        | _ => exact chain
    | true =>
        have behind : Parts (Byte.rparen :: rest) := stopsAt_cons (by decide)
        obtain ⟨read, first⟩ := gathers_members hns chain clean behind
        have stopped := read.stop (joinAfter_before (by rw [Text.first_of_opens close]; nofun))
        have opens := opens_byte (b := Byte.lparen) (s := .lparen) (by decide)
          (inner.write ns ++ Byte.rparen :: rest)
        refine Fares.then (s := [Byte.lparen]) (x := true) (t := inner.write ns ++ [Byte.rparen])
          ?_ ?_
        · rw [List.append_assoc]
          exact fares_tryMark opens
        · refine Fares.then (Reads.isAt (b := false) (beq_eq_false_iff_ne.mpr first) stopped) ?_
          exact (fares_mark _ close).bind_pure rfl

/-- A path opens with a name, the word for the type property, a bracket or a mark; an element opens
with no inversion mark. -/
theorem opens_path (hns : ns.Labelled) {p : Path} (formed : p.IsFormed) (clean : p.Clean)
    (parts : Parts rest) :
    ∃ l behind, Opens (p.write ns ++ rest) l behind ∧ startsVerb l = true ∧
      (∀ name, l ≠ .variableName name) ∧ (p.isElement = true → l ≠ .symbol .caret) := by
  induction p generalizing rest with
  | step predicate =>
      obtain ⟨iri, l, _, opens, spelled⟩ := opens_step hns formed clean parts
      rcases spelled with ⟨word, _⟩ | spells
      · cases l with
        | identifier name => exact ⟨_, _, opens, word, nofun, fun _ => nofun⟩
        | _ => cases word
      · cases spells with
        | reference => exact ⟨_, _, opens, rfl, nofun, fun _ => nofun⟩
        | name => exact ⟨_, _, opens, rfl, nofun, fun _ => nofun⟩
  | inverse inner _ =>
      have avoids : Avoids Byte.caret (bracketedIf (!inner.isElement) (inner.write ns) ++ rest) := by
        cases found : inner.isElement with
        | true => exact avoids_caret (stopsAt_element hns found formed _)
        | false => exact stopsAt_cons (by decide)
      exact ⟨_, _, opens_caret avoids, rfl, nofun, nofun⟩
  | repeated times inner ih =>
      rw [write]
      cases found : inner.isPrimary with
      | true =>
          have marked : Parts ([times.mark] ++ rest) := by
            cases times <;> exact stopsAt_cons (by decide)
          obtain ⟨l, behind, opens, starts, noVar, noCaret⟩ := ih formed clean marked
          rw [List.append_assoc]
          refine ⟨l, behind, opens, starts, noVar, fun _ => noCaret ?_⟩
          cases inner with
          | step predicate => rfl
          | negated inner => rfl
          | _ => cases found
      | false =>
          exact ⟨_, _, opens_byte (b := Byte.lparen) (s := .lparen) (by decide)
            (inner.write ns ++ [Byte.rparen] ++ [times.mark] ++ rest), rfl, nofun, fun _ => nofun⟩
  | negated inner _ =>
      exact ⟨_, _, opens_bang (avoids_equals_set hns formed rest), rfl, nofun, fun _ => nofun⟩
  | join how left right ih _ =>
      rw [write, List.append_assoc]
      cases found : left.breaksLeft how with
      | true =>
          exact ⟨_, _, opens_byte (b := Byte.lparen) (s := .lparen) (by decide)
            (left.write ns ++ [Byte.rparen] ++
              (joinMark how :: bracketedIf right.isJoin (right.write ns) ++ rest)), rfl, nofun, nofun⟩
      | false =>
          have behind : Parts (joinMark how :: bracketedIf right.isJoin (right.write ns) ++ rest) := by
            cases how <;> exact stopsAt_cons (by decide)
          obtain ⟨l, behind, opens, starts, noVar, _⟩ := ih formed.1
            (fun iri hi => clean iri (List.mem_append_left _ hi)) behind
          exact ⟨l, behind, opens, starts, noVar, nofun⟩

/-- An element of a path opens with no inversion mark. -/
theorem first_element (hns : ns.Labelled) {p : Path} (h : p.isElement = true) (formed : p.IsFormed)
    (clean : p.Clean) (parts : Parts rest) : (p.write ns ++ rest).first ≠ .symbol .caret := by
  obtain ⟨l, behind, opens, _, _, noCaret⟩ := opens_path hns formed clean parts
  exact Text.first_of_opens opens ▸ noCaret h

end Members

theorem namespaces_ofAllowance (ns : Namespaces) (n : Nat) :
    (Level.ofAllowance ns n).namespaces = ns := by
  cases n <;> rfl

section Tiers
variable {ns : Namespaces} {level : Level} {s rest : Text} {g : Prop} {x : Path}

/-- The plus sign of an object, as it stands behind a path. -/
def plusText (plus : Bool) : Text := if plus then [Byte.space, Byte.plus] else []

/-- A path element with a repetition mark. -/
theorem fares_pathElement_marked {t : Text} {l : Lexeme} {times : Repetition}
    (hp : Fares (pathPrimary level) s g x (t ++ rest)) (opens : Opens (t ++ rest) l rest)
    (mark : repetition? l = some times) :
    Fares (pathElement level) (s ++ t) g (.repeated times x) rest := by
  refine (Fares.bind hp (Reads.lexeme (Text.first_of_opens opens) ?_)).congr (and_iff_left trivial)
  rw [mark]
  exact (fares_skip opens).bind_pure rfl

/-- A path element without a mark of its own, with or without the plus sign of an object. -/
theorem fares_pathElement (plus : Bool)
    (hp : ∀ t, Parts t → Fares (pathPrimary level) s g x t)
    (parts : plus = false → Parts rest) (noMark : plus = false → repetition? rest.first = none) :
    Fares (pathElement level) (s ++ plusText plus) g
      (if plus then .repeated .oneOrMore x else x) rest := by
  cases plus with
  | true =>
      have opens := (opens_byte (b := Byte.plus) (s := .plus) (by decide) rest).space
        (b := Byte.space) (by decide)
      exact fares_pathElement_marked (hp _ (stopsAt_cons (by decide))) opens rfl
  | false =>
      have unmarked := noMark rfl
      rw [plusText, if_neg (by decide), List.append_nil]
      refine (hp rest (parts rfl)).bind_pure ?_
      have here : lexeme (before rest) = .ok (rest.first, before rest) := rfl
      rw [bind_eq_of_ok here, unmarked]
      rfl

/-- A path between brackets is read one level further in. -/
theorem fares_pathPrimary_bracketed {m : Nat}
    (hp : ∀ n, Fares (path (Level.ofAllowance ns n)) s (m ≤ n) x (Byte.rparen :: rest)) (n : Nat) :
    Fares (pathPrimary (Level.ofAllowance ns n)) (Text.bracketed s) (m + 1 ≤ n) x rest := by
  have openMark := opens_byte (b := Byte.lparen) (s := .lparen) (by decide)
    (s ++ [Byte.rparen] ++ rest)
  have closeMark := opens_byte (b := Byte.rparen) (s := .rparen) (by decide) rest
  have inside : ∀ n, Fares (bracketedPath (Level.ofAllowance ns n)) (Text.bracketed s) (m ≤ n) x
      rest := by
    intro n
    refine Fares.then (s := [Byte.lparen]) (t := s ++ [Byte.rparen]) (fares_skip openMark) ?_
    refine (Fares.bind (hp n) ?_).congr (and_iff_left trivial)
    exact (fares_mark _ closeMark).bind_pure rfl
  refine Reads.lexeme (Text.first_of_opens openMark) ?_
  cases n with
  | zero => exact ⟨fun h => absurd h (Nat.not_succ_le_zero m), fun _ => ⟨_, rfl⟩, (inside 0).fewer⟩
  | succ n => exact (inside n).congr Nat.add_le_add_iff_right.symm

/-- What follows a path: no repetition mark that the path could take, unless a plus sign stands there
for it to take. -/
structure EndsPath (plus : Bool) (p : Path) (rest : Text) : Prop where
  parts : plus = false → Parts rest
  taken : plus = true → p.repeatLast?.isSome = true
  noMark : plus = false → p.repeatLast?.isSome = true → repetition? rest.first = none

theorem EndsPath.of_kept {p : Path} {rest : Text} (parts : Parts rest)
    (noMark : p.repeatLast?.isSome = true → repetition? rest.first = none) :
    EndsPath false p rest :=
  ⟨fun _ => parts, nofun, fun _ => noMark⟩

theorem EndsPath.of_taken {p : Path} {rest : Text} (h : p.repeatLast?.isSome = true) :
    EndsPath true p rest :=
  ⟨nofun, fun _ => h, nofun⟩

/-- How a path is read from its written form by the readers of parts and of whole paths. -/
structure Readable (ns : Namespaces) (p : Path) : Prop where
  primary : p.isPrimary = true → ∀ n rest, Parts rest →
    Fares (pathPrimary (Level.ofAllowance ns n)) (p.write ns) (p.nesting ≤ n)
      (p.rewrite .withoutSpans) rest
  element : p.isElement = true → ∀ n plus rest, EndsPath plus p rest →
    Fares (pathElement (Level.ofAllowance ns n)) (p.write ns ++ plusText plus) (p.nesting ≤ n)
      ((p.under plus).rewrite .withoutSpans) rest
  part : p.isJoin = false → ∀ n plus rest, EndsPath plus p rest →
    Fares (pathPart (Level.ofAllowance ns n)) (p.write ns ++ plusText plus) (p.nesting ≤ n)
      ((p.under plus).rewrite .withoutSpans) rest
  sequence : p.breaksLeft .sequence = false → ∀ n plus rest, EndsPath plus p rest →
    Gathers Fails (pathSequence (Level.ofAllowance ns n))
      (joinAfter .slash .sequence (pathPart (Level.ofAllowance ns n)))
      (p.write ns ++ plusText plus) (p.nesting ≤ n) ((p.under plus).rewrite .withoutSpans) rest
  whole : ∀ n plus rest, EndsPath plus p rest → rest.first ≠ .symbol .slash →
    Gathers Fails (path (Level.ofAllowance ns n))
      (joinAfter .pipe .alternative (pathSequence (Level.ofAllowance ns n)))
      (p.write ns ++ plusText plus) (p.nesting ≤ n) ((p.under plus).rewrite .withoutSpans) rest

variable {p : Path}

/-- A path that can be read as a part can be read as a sequence and as a whole. -/
theorem readable_of_part
    (primary : p.isPrimary = true → ∀ n rest, Parts rest →
      Fares (pathPrimary (Level.ofAllowance ns n)) (p.write ns) (p.nesting ≤ n)
        (p.rewrite .withoutSpans) rest)
    (element : p.isElement = true → ∀ n plus rest, EndsPath plus p rest →
      Fares (pathElement (Level.ofAllowance ns n)) (p.write ns ++ plusText plus) (p.nesting ≤ n)
        ((p.under plus).rewrite .withoutSpans) rest)
    (part : ∀ n plus rest, EndsPath plus p rest →
      Fares (pathPart (Level.ofAllowance ns n)) (p.write ns ++ plusText plus) (p.nesting ≤ n)
        ((p.under plus).rewrite .withoutSpans) rest) : Readable ns p where
  primary := primary
  element := element
  part _ := part
  sequence _ n plus rest ends := (part n plus rest ends).gathers (extends_fails _)
  whole n plus rest ends noSlash :=
    (((part n plus rest ends).gathers (extends_fails _)).stop
      (joinAfter_before noSlash)).gathers (extends_fails _)

/-- The whole path is read where no bar follows either. -/
theorem Readable.path (h : Readable ns p) (n : Nat) {plus : Bool} (ends : EndsPath plus p rest)
    (noSlash : rest.first ≠ .symbol .slash) (noBar : rest.first ≠ .symbol .pipe) :
    Fares (path (Level.ofAllowance ns n)) (p.write ns ++ plusText plus) (p.nesting ≤ n)
      ((p.under plus).rewrite .withoutSpans) rest :=
  (h.whole n plus rest ends noSlash).stop (joinAfter_before noBar)

/-- The path between brackets. -/
theorem Readable.bracketed (h : Readable ns p) (n : Nat) (rest : Text) :
    Fares (pathPrimary (Level.ofAllowance ns n)) (Text.bracketed (p.write ns)) (p.nesting + 1 ≤ n)
      (p.rewrite .withoutSpans) rest := by
  have first := Text.first_of_opens (opens_byte (b := Byte.rparen) (s := .rparen) (by decide) rest)
  have ends : EndsPath false p (Byte.rparen :: rest) :=
    ⟨fun _ => stopsAt_cons (by decide), nofun, fun _ _ => by rw [first]; rfl⟩
  refine fares_pathPrimary_bracketed (fun n => ?_) n
  have read := h.path n ends (by rw [first]; nofun) (by rw [first]; nofun)
  rwa [plusText, if_neg (by decide), List.append_nil] at read

theorem EndsPath.bare {plus : Bool} (ends : EndsPath plus p rest)
    (marked : p.repeatLast?.isSome = true) :
    plus = false → repetition? rest.first = none := fun noSign => ends.noMark noSign marked

/-- A path read as a primary, with the part it is repeated as. -/
theorem readable_of_primary (hns : ns.Labelled) (isPrimary : p.isPrimary = true) (formed : p.IsFormed)
    (clean : p.Clean) (repeats : p.repeatLast? = some (.repeated .oneOrMore p))
    (primary : ∀ n rest, Parts rest →
      Fares (pathPrimary (Level.ofAllowance ns n)) (p.write ns) (p.nesting ≤ n)
        (p.rewrite .withoutSpans) rest) : Readable ns p := by
  have isElement : p.isElement = true := by
    cases p <;> first | rfl | cases isPrimary
  have joined : p.isJoin = false := by
    cases p <;> first | rfl | cases isPrimary
  have element : ∀ n plus rest, EndsPath plus p rest →
      Fares (pathElement (Level.ofAllowance ns n)) (p.write ns ++ plusText plus) (p.nesting ≤ n)
        ((p.under plus).rewrite .withoutSpans) rest := by
    intro n plus rest ends
    have read := fares_pathElement plus (primary n) ends.parts (ends.bare (by rw [repeats]; rfl))
    cases plus with
    | true =>
        rw [under, if_pos rfl, repeats]
        exact read
    | false => exact read
  refine readable_of_part (fun _ => primary) (fun _ => element) ?_
  intro n plus rest ends
  refine Reads.noMark ?_ (element n plus rest ends)
  rw [List.append_assoc]
  refine first_element hns isElement formed clean ?_
  cases plus with
  | true => exact stopsAt_cons (by decide)
  | false => exact ends.parts rfl

end Tiers

section Cases
variable {ns : Namespaces} {rest : Text} {inner left right : Path}

theorem readable_step (hns : ns.Labelled) {predicate : Term} (h : predicate.node.isIri = true)
    (clean : (step predicate).Clean) : Readable ns (step predicate) := by
  refine readable_of_primary hns rfl h clean rfl fun n rest parts => ?_
  have read := (fares_iriStep hns h clean parts).congr (iff_of_true trivial (Nat.zero_le n))
  obtain ⟨iri, l, _, opens, spelled⟩ := opens_step hns h clean parts
  refine Reads.lexeme (Text.first_of_opens opens) ?_
  rw [namespaces_ofAllowance]
  rcases spelled with ⟨word, _⟩ | spells
  · cases l with
    | identifier name =>
        show Fares (if (Lexeme.identifier name).isTypeWord then iriStep ns else expected .path) _ _ _ _
        rw [if_pos word]
        exact read
    | _ => cases word
  · cases spells with
    | reference => exact read
    | name => exact read

theorem readable_negated (hns : ns.Labelled) (h : inner = .placeholder ∨ inner.IsMemberChain)
    (clean : inner.Clean) : Readable ns (negated inner) := by
  refine readable_of_primary hns rfl h clean rfl fun n rest parts => ?_
  have opens := opens_bang (avoids_equals_set hns h rest)
  refine Reads.lexeme (Text.first_of_opens opens) ?_
  rw [namespaces_ofAllowance]
  exact (Fares.then (s := [Byte.bang]) (fares_skip opens)
    (fares_negatedSet hns h clean parts)).congr (iff_of_true trivial (Nat.zero_le n))

theorem opens_repetitionMark (times : Repetition) (parts : Parts rest) :
    ∃ m, Opens (times.mark :: rest) (.symbol m) rest ∧ repetition? (.symbol m) = some times := by
  cases times with
  | zeroOrMore => exact ⟨.star, opens_byte (by decide) rest, rfl⟩
  | oneOrMore => exact ⟨.plus, opens_byte (by decide) rest, rfl⟩
  | zeroOrOne => exact ⟨.question, opens_question parts.stopsAt_isNameByte, rfl⟩

theorem parts_mark (times : Repetition) (rest : Text) : Parts (times.mark :: rest) := by
  cases times <;> exact stopsAt_cons (by decide)

theorem readable_repeated (hns : ns.Labelled) (times : Repetition) (h : inner.IsFormed)
    (clean : inner.Clean) (ih : Readable ns inner) : Readable ns (repeated times inner) := by
  have element : ∀ n plus rest, EndsPath plus (repeated times inner) rest →
      Fares (pathElement (Level.ofAllowance ns n)) ((repeated times inner).write ns ++ plusText plus)
        ((repeated times inner).nesting ≤ n)
        (((repeated times inner).under plus).rewrite .withoutSpans) rest := by
    intro n plus rest ends
    cases plus with
    | true => cases ends.taken rfl
    | false =>
        obtain ⟨m, opens, marks⟩ := opens_repetitionMark times (ends.parts rfl)
        have inside : Fares (pathPrimary (Level.ofAllowance ns n))
            (bracketedIf (!inner.isPrimary) (inner.write ns)) ((repeated times inner).nesting ≤ n)
            (inner.rewrite .withoutSpans) ([times.mark] ++ rest) := by
          rw [nesting]
          cases found : inner.isPrimary with
          | true => exact ih.primary found n _ (parts_mark times rest)
          | false => exact ih.bracketed n _
        rw [plusText, if_neg (by decide), List.append_nil]
        exact fares_pathElement_marked inside opens marks
  refine readable_of_part nofun (fun _ => element) ?_
  intro n plus rest ends
  refine Reads.noMark ?_ (element n plus rest ends)
  cases plus with
  | true => cases ends.taken rfl
  | false =>
      rw [plusText, if_neg (by decide), List.append_nil]
      exact first_element hns rfl h clean (ends.parts rfl)

theorem under_inverse (plus : Bool) (h : inner.isElement = true) :
    (inverse inner).under plus = inverse (inner.under plus) ∧
      ((inverse inner).repeatLast?.isSome = inner.repeatLast?.isSome) := by
  cases inner with
  | step predicate => cases plus <;> exact ⟨rfl, rfl⟩
  | negated inner => cases plus <;> exact ⟨rfl, rfl⟩
  | repeated times inner => cases plus <;> exact ⟨rfl, rfl⟩
  | _ => cases h

theorem under_inverse_bracketed (plus : Bool) (h : inner.isElement = false) :
    (inverse inner).under plus = inverse (if plus then .repeated .oneOrMore inner else inner) ∧
      (inverse inner).repeatLast?.isSome = true := by
  cases inner with
  | inverse inner => cases plus <;> exact ⟨rfl, rfl⟩
  | join how left right => cases plus <;> exact ⟨rfl, rfl⟩
  | _ => cases h

theorem readable_inverse (hns : ns.Labelled) (h : inner.IsFormed) (ih : Readable ns inner) :
    Readable ns (inverse inner) := by
  refine readable_of_part nofun nofun ?_
  intro n plus rest ends
  have behind : Avoids Byte.caret (bracketedIf (!inner.isElement) (inner.write ns) ++
      (plusText plus ++ rest)) := by
    cases found : inner.isElement with
    | true => exact avoids_caret (stopsAt_element hns found h _)
    | false => exact stopsAt_cons (by decide)
  have opens := opens_caret behind
  rw [← List.append_assoc] at opens
  refine Fares.then (s := [Byte.caret]) (x := true)
    (t := bracketedIf (!inner.isElement) (inner.write ns) ++ plusText plus) (fares_tryMark opens) ?_
  rw [nesting]
  cases found : inner.isElement with
  | true =>
      obtain ⟨value, same⟩ := under_inverse plus found
      have read := ih.element found n plus rest
        ⟨ends.parts, same ▸ ends.taken, same ▸ ends.noMark⟩
      rw [value]
      exact read.map
  | false =>
      obtain ⟨value, marked⟩ := under_inverse_bracketed plus found
      have read := fares_pathElement plus (fun t _ => ih.bracketed n t) ends.parts (ends.bare marked)
      rw [value]
      cases plus with
      | true => exact read.map
      | false => exact read.map

/-- The right part of a join, between brackets if it is a join itself. -/
theorem fares_rightPart (ih : Readable ns right) {how : PathJoin} (n : Nat)
    {plus : Bool} (ends : EndsPath plus (join how left right) rest) :
    ∃ x, (join how left right).under plus = join how left x ∧
      Fares (pathPart (Level.ofAllowance ns n))
        (bracketedIf right.isJoin (right.write ns) ++ plusText plus)
        (nestingIn right.isJoin right.nesting ≤ n) (x.rewrite .withoutSpans) rest := by
  cases found : right.isJoin with
  | true =>
      have repeats : (join how left right).repeatLast? =
          some (join how left (.repeated .oneOrMore right)) := by
        rw [repeatLast?, if_pos found]
      have read := fares_pathElement plus (fun t _ => ih.bracketed n t) ends.parts
        (ends.bare (by rw [repeats]; rfl))
      refine ⟨if plus then .repeated .oneOrMore right else right, ?_, Reads.noMark ?_ ?_⟩
      · cases plus with
        | true => rw [under, if_pos rfl, repeats]; rfl
        | false => rfl
      · have opens := opens_byte (b := Byte.lparen) (s := .lparen) (by decide)
          (right.write ns ++ [Byte.rparen] ++ plusText plus ++ rest)
        intro same
        cases same.symm.trans (Text.first_of_opens opens)
      · cases plus with
        | true => exact read
        | false => exact read
  | false =>
      have repeats : (join how left right).repeatLast? = right.repeatLast?.map (join how left) := by
        rw [repeatLast?, found, if_neg (by decide)]
      have same : (join how left right).repeatLast?.isSome = right.repeatLast?.isSome := by
        rw [repeats, Option.isSome_map]
      refine ⟨right.under plus, ?_, ?_⟩
      · cases plus with
        | true =>
            rw [under, if_pos rfl, repeats, under, if_pos rfl]
            cases right.repeatLast? <;> rfl
        | false => rfl
      · exact ih.part found n plus rest ⟨ends.parts, same ▸ ends.taken, same ▸ ends.noMark⟩

/-- Nothing but a repetition mark is asked of the text behind the left part of a join. -/
theorem endsPath_join (left : Path) (m : Symbol) (h : m = .slash ∨ m = .pipe) {b : Byte} {s : Text}
    (opens : Opens (b :: s) (.symbol m) s) (parts : Parts (b :: s)) : EndsPath false left (b :: s) := by
  refine ⟨fun _ => parts, nofun, fun _ _ => ?_⟩
  rw [Text.first_of_opens opens]
  rcases h with rfl | rfl <;> rfl

theorem gathers_join_sequence (hleft : Readable ns left) (hright : Readable ns right) (n : Nat)
    {plus : Bool} (ends : EndsPath plus (join .sequence left right) rest) :
    Gathers Fails (pathSequence (Level.ofAllowance ns n))
      (joinAfter .slash .sequence (pathPart (Level.ofAllowance ns n)))
      ((join .sequence left right).write ns ++ plusText plus)
      ((join .sequence left right).nesting ≤ n)
      (((join .sequence left right).under plus).rewrite .withoutSpans) rest := by
  obtain ⟨x, value, readRight⟩ := fares_rightPart hright n ends
  have opens := opens_byte (b := Byte.slash) (s := .slash) (by decide)
    (bracketedIf right.isJoin (right.write ns) ++ plusText plus ++ rest)
  have readLeft : Gathers Fails (pathSequence (Level.ofAllowance ns n))
      (joinAfter .slash .sequence (pathPart (Level.ofAllowance ns n)))
      (bracketedIf (left.breaksLeft .sequence) (left.write ns))
      (nestingIn (left.breaksLeft .sequence) left.nesting ≤ n) (left.rewrite .withoutSpans)
      (Byte.slash :: (bracketedIf right.isJoin (right.write ns) ++ plusText plus) ++ rest) := by
    have behind := endsPath_join left .slash (.inl rfl) opens (stopsAt_cons (by decide))
    cases found : left.breaksLeft .sequence with
    | false =>
        have read := hleft.sequence found n false _ behind
        rwa [plusText, if_neg (by decide), List.append_nil] at read
    | true =>
        have openMark := opens_byte (b := Byte.lparen) (s := .lparen) (by decide)
          (left.write ns ++ [Byte.rparen] ++
            (Byte.slash :: (bracketedIf right.isJoin (right.write ns) ++ plusText plus) ++ rest))
        have element := fares_pathElement false (fun t _ => hleft.bracketed n t)
          behind.parts (fun _ => by rw [Text.first_of_opens opens]; rfl)
        rw [plusText, if_neg (by decide), List.append_nil] at element
        exact Reads.gathers (Reads.noMark (Text.first_of_opens openMark ▸ nofun) element)
          (extends_fails _)
  have whole := readLeft.extend (extends_fails _)
    (fares_joinAfter .sequence (left.rewrite .withoutSpans) opens readRight)
    (List.cons_ne_nil _ _)
  rw [value, write, List.append_assoc]
  exact whole.congr (by rw [nesting, Nat.max_le])

theorem gathers_join_alternative (hns : ns.Labelled) (formed : right.IsFormed)
    (hleft : Readable ns left) (hright : Readable ns right) (n : Nat) {plus : Bool}
    (ends : EndsPath plus (join .alternative left right) rest) (noSlash : rest.first ≠ .symbol .slash) :
    Gathers Fails (path (Level.ofAllowance ns n))
      (joinAfter .pipe .alternative (pathSequence (Level.ofAllowance ns n)))
      ((join .alternative left right).write ns ++ plusText plus)
      ((join .alternative left right).nesting ≤ n)
      (((join .alternative left right).under plus).rewrite .withoutSpans) rest := by
  obtain ⟨x, value, readPart⟩ := fares_rightPart hright n ends
  have readRight : Fares (pathSequence (Level.ofAllowance ns n)) _ _ _ rest :=
    (readPart.gathers (extends_fails _)).stop (joinAfter_before noSlash)
  have avoids : Avoids Byte.pipe
      (bracketedIf right.isJoin (right.write ns) ++ plusText plus ++ rest) := by
    rw [List.append_assoc]
    cases found : right with
    | join how left right => exact stopsAt_cons (by decide)
    | inverse inner => exact stopsAt_cons (by decide)
    | _ => exact avoids_pipe (stopsAt_element hns rfl (found ▸ formed) _)
  have opens := opens_pipe avoids
  have plain : left.breaksLeft .alternative = false := by
    cases left with
    | join how _ _ => cases how <;> rfl
    | _ => rfl
  have readLeft := hleft.whole n false _
    (endsPath_join left .pipe (.inr rfl) opens (stopsAt_cons (by decide)))
    (by rw [Text.first_of_opens opens]; nofun)
  rw [plusText, if_neg (by decide), List.append_nil] at readLeft
  have whole := readLeft.extend (extends_fails _)
    (fares_joinAfter .alternative (left.rewrite .withoutSpans) opens readRight)
    (List.cons_ne_nil _ _)
  rw [value, write, plain, List.append_assoc]
  exact whole.congr (by rw [nesting, Nat.max_le, plain]; rfl)

theorem readable_join (hns : ns.Labelled) {how : PathJoin} (formed : right.IsFormed)
    (hleft : Readable ns left) (hright : Readable ns right) :
    Readable ns (join how left right) where
  primary := nofun
  element := nofun
  part := nofun
  sequence plain n plus rest ends := by
    cases how with
    | sequence => exact gathers_join_sequence hleft hright n ends
    | alternative => cases plain
  whole n plus rest ends noSlash := by
    cases how with
    | sequence =>
        exact ((gathers_join_sequence hleft hright n ends).stop (joinAfter_before noSlash)).gathers
          (extends_fails _)
    | alternative => exact gathers_join_alternative hns formed hleft hright n ends noSlash

end Cases

/-- Every path of the grammar is read back from its written form. -/
theorem readable_path {ns : Namespaces} (hns : ns.Labelled) {p : Path} (h : p.IsFormed)
    (clean : p.Clean) : Readable ns p := by
  induction p with
  | step predicate => exact readable_step hns h clean
  | inverse inner ih => exact readable_inverse hns h (ih h clean)
  | repeated times inner ih => exact readable_repeated hns times h clean (ih h clean)
  | negated inner _ => exact readable_negated hns h clean
  | join how left right ihLeft ihRight =>
      have hleft := ihLeft h.1 fun iri hi => clean iri (List.mem_append_left _ hi)
      have hright := ihRight h.2 fun iri hi => clean iri (List.mem_append_right _ hi)
      exact readable_join hns h.2 hleft hright

end Grammar

end SparqlMetrics
