import SparqlMetrics.Proofs.Normal.Lines
import SparqlMetrics.Proofs.Reading.Paths

/-!
# The layout of written terms and paths

A text that is written under some declarations is laid out if it is in chunks in front of every text
in chunks that opens with none of the bytes that it shuns, its IRIs ending no lines but those of
clauses. The chunks are the same under all declarations but for the IRIs, which are names under one
map and stand between brackets under another. Such texts are put together by rules: one text behind
another that admits it, between brackets, on a line of its own. Terms and paths in writing are laid
out, and shun what goes on with a token and the end of the line.
-/
namespace SparqlMetrics

open SparqlMetrics.Normal Lexeme Chunk

namespace Chunk

/-- What an IRI is written as under some declarations: a name, or the IRI between brackets. -/
def reference (ns : Namespaces) (iri : Text) : Chunk :=
  match ns.entryFor? iri with
  | some entry => .token (entry.1 ++ Byte.colon :: iri.drop entry.2.length)
      (.prefixedName entry.1 (iri.drop entry.2.length)) Byte.continuesName
  | none => .token (Text.angled iri) (.iri iri) fun _ => false

/-- A chunk as it is written under some declarations. -/
def under (ns : Namespaces) : Chunk → Chunk
  | .token _ (.iri value) _ => reference ns value
  | c => c

/-- The line of a clause that ends with a reference. -/
def clauseLine (k : Keyword) (c : Chunk) : List Chunk :=
  [.token (utf8 k.name) (.keyword k (utf8 k.name)) Byte.continuesName, .gap Byte.space, c,
    .gap Byte.newline]

theorem under_token {ns : Namespaces} {word : Text} {l : Lexeme} {shuns : Byte → Bool}
    (other : l.isReference = false) : under ns (.token word l shuns) = .token word l shuns := by
  cases l <;> first | rfl | cases other

end Chunk

/-- Whether a text is in chunks under all declarations, in front of every text in chunks that opens
with none of some bytes. -/
def LaidOut (shuns : Byte → Bool) (s : Namespaces → Text) : Prop :=
  ∃ cs : List Chunk, ∀ ns : Namespaces, ns.Plain → texts (cs.map (under ns)) = s ns ∧
    ∀ ts, Laid ns ts → Ended ts → StopsAt shuns (texts ts) →
      Laid ns (cs.map (under ns) ++ ts) ∧ Ended (cs.map (under ns) ++ ts)

/-- A byte that may go on with a term in front of it, or ends its line. -/
def Byte.endsBadly (b : Byte) : Bool := b.clings || b == Byte.newline

abbrev Byte.none (_ : Byte) : Bool := false

namespace LaidOut
section Rules
variable {p q : Byte → Bool} {s t : Namespaces → Text} {b : Byte}

/-- What shuns nothing is in chunks as it stands. -/
theorem exists_chunks (h : LaidOut Byte.none s) : ∃ cs : List Chunk, ∀ ns : Namespaces, ns.Plain →
    texts (cs.map (under ns)) = s ns ∧ Laid ns (cs.map (under ns)) ∧
      Ended (cs.map (under ns)) := by
  obtain ⟨cs, all⟩ := h
  refine ⟨cs, fun ns hns => ?_⟩
  obtain ⟨same, laid⟩ := all ns hns
  obtain ⟨laid, ended⟩ := laid [] trivial .nil (stopsAt_nil _)
  rw [List.append_nil] at laid ended
  exact ⟨same, laid, ended⟩

theorem nil : LaidOut p fun _ => [] := ⟨[], fun _ _ => ⟨rfl, fun _ laid ended _ => ⟨laid, ended⟩⟩⟩

theorem weaken (h : LaidOut p s) (more : ∀ b, p b = true → q b = true) : LaidOut q s := by
  obtain ⟨cs, all⟩ := h
  refine ⟨cs, fun ns hns => ⟨(all ns hns).1, fun ts hts ended stop => ?_⟩⟩
  refine (all ns hns).2 ts hts ended (stop.weaken fun b kept => ?_)
  exact Bool.eq_false_iff.mpr fun shunned => by
    rw [more b shunned] at kept
    cases kept

theorem of_name (h : LaidOut Byte.continuesName s) : LaidOut Byte.endsBadly s :=
  h.weaken fun b continues => by simp [Byte.endsBadly, Byte.clings, continues]

theorem of_free (h : LaidOut Byte.none s) : LaidOut q s := h.weaken nofun

/-- A text behind another one that admits it. -/
theorem append (hs : LaidOut p s) (ht : LaidOut q t)
    (admits : ∀ ns : Namespaces, ns.Plain → ∀ rest, StopsAt q rest → StopsAt p (t ns ++ rest)) :
    LaidOut q fun ns => s ns ++ t ns := by
  obtain ⟨cs, first⟩ := hs
  obtain ⟨ds, second⟩ := ht
  refine ⟨cs ++ ds, fun ns hns => ?_⟩
  obtain ⟨same, first⟩ := first ns hns
  obtain ⟨same', second⟩ := second ns hns
  rw [List.map_append]
  refine ⟨by rw [texts_append, same, same'], fun ts hts ended stop => ?_⟩
  obtain ⟨laid, ended⟩ := second ts hts ended stop
  rw [List.append_assoc]
  refine first _ laid ended ?_
  rw [texts_append, same']
  exact admits ns hns _ stop

theorem append_free (hs : LaidOut Byte.none s) (ht : LaidOut q t) :
    LaidOut q fun ns => s ns ++ t ns :=
  hs.append ht fun _ _ _ _ _ _ => rfl

theorem append_cons (hs : LaidOut p s) (ht : LaidOut q fun ns => b :: t ns) (admits : p b = false) :
    LaidOut q fun ns => s ns ++ b :: t ns :=
  hs.append ht fun _ _ _ _ => stopsAt_cons admits

theorem gap (white : b.isSpace = true) : LaidOut Byte.none fun _ => [b] :=
  ⟨[.gap b], fun _ _ => ⟨rfl, fun _ laid ended _ => ⟨⟨white, laid⟩, .gap ended⟩⟩⟩

theorem space (h : LaidOut q s) : LaidOut q fun ns => Byte.space :: s ns :=
  (gap (by decide)).append_free h

theorem spaces (n : Nat) (h : LaidOut q s) : LaidOut q fun ns => Text.spaces n ++ s ns := by
  induction n with
  | zero => exact h
  | succ n ih => exact ih.space

theorem word {l : Lexeme} {w : Text} (h : ∀ {ns}, l.WrittenAs ns w p)
    (other : l.isReference = false) : LaidOut p fun _ => w := by
  refine ⟨[.token w l p], fun ns _ => ?_⟩
  rw [List.map_singleton, under_token other]
  refine ⟨List.append_nil w, fun ts laid ended stop => ⟨⟨h, stop, laid⟩, ?_⟩⟩
  exact .token ended fun reference => absurd (other.symm.trans reference) (by decide)

/-- The line of a clause ends with the name of what it refers to. -/
theorem clause {k : Keyword} (naming : k ∈ namingKeywords) {c : Chunk}
    (h : ∀ ns : Namespaces, ns.Plain → ∃ l shuns, under ns c = .token (s ns) l shuns ∧
      l.WrittenAs ns (s ns) shuns ∧ shuns Byte.newline = false) :
    LaidOut Byte.none fun ns => utf8 k.name ++ Byte.space :: (s ns ++ [Byte.newline]) := by
  refine ⟨clauseLine k c, fun ns hns => ?_⟩
  obtain ⟨l, shuns, same, written, admits⟩ := h ns hns
  have whole : (clauseLine k c).map (under ns) = clauseLine k (.token (s ns) l shuns) :=
    congrArg (clauseLine k) same
  rw [whole]
  refine ⟨rfl, fun ts laid ended _ => ⟨?_, .clause naming ended⟩⟩
  exact ⟨writtenAs_keyword k, stopsAt_cons (by decide), by decide, written, stopsAt_cons admits,
    by decide, laid⟩

theorem byte {m : Symbol} (h : Symbol.ofByte? b = some m ∧ isSignByte b = true ∧
    b ≠ Byte.greater ∧ (continuesToken b = true → m = .minus) ∧ (m = .minus → b = Byte.hyphen)) :
    LaidOut Byte.none fun _ => [b] :=
  word (writtenAs_byte h) rfl

theorem keyword (k : Keyword) : LaidOut Byte.continuesName fun _ => utf8 k.name :=
  word (writtenAs_keyword k) rfl

/-- A text behind a keyword and a space. -/
theorem behind {words : String} (k : Keyword) (spelled : utf8 words = utf8 k.name ++ [Byte.space])
    (h : LaidOut q s) : LaidOut q fun ns => utf8 words ++ s ns := by
  simp only [spelled, List.append_assoc]
  exact (keyword k).append_cons h.space (by decide)

theorem lparen : LaidOut Byte.none fun _ => [Byte.lparen] :=
  byte (m := .lparen) (by decide)

theorem rparen : LaidOut Byte.none fun _ => [Byte.rparen] :=
  byte (m := .rparen) (by decide)

theorem bracketed (h : LaidOut p s) (admits : p Byte.rparen = false) :
    LaidOut Byte.none fun ns => Text.bracketed (s ns) :=
  lparen.append_free (h.append_cons rparen admits)

theorem bracketedIf (h : LaidOut p s) (admits : p Byte.rparen = false) (needed : Bool) :
    LaidOut p fun ns => Path.bracketedIf needed (s ns) := by
  cases needed with
  | false => exact h
  | true => exact (h.bracketed admits).of_free

theorem line (h : LaidOut p s) (admits : p Byte.newline = false) (indent : Nat) :
    LaidOut Byte.none fun ns => SparqlMetrics.line indent (s ns) := by
  have ended := (h.append_cons (gap (b := Byte.newline) (by decide)) admits).spaces indent
  simpa only [SparqlMetrics.line, List.append_assoc] using ended

theorem flatMap {α : Type} {xs : List α} {write : α → Namespaces → Text}
    (h : ∀ x ∈ xs, LaidOut Byte.none (write x)) :
    LaidOut Byte.none fun ns => xs.flatMap fun x => write x ns := by
  induction xs with
  | nil => exact nil
  | cons x xs ih =>
      simp only [List.flatMap_cons]
      exact (h x List.mem_cons_self).append_free
        (ih fun y member => h y (List.mem_cons_of_mem _ member))

/-- Texts with a separator in front of each, which each of them admits behind it. -/
theorem separated {α : Type} {xs : List α} {write : α → Namespaces → Text} {sep : Text}
    (hsep : LaidOut Byte.none fun _ => b :: sep) (admits : p b = false)
    (h : ∀ x ∈ xs, LaidOut p (write x)) :
    LaidOut p fun ns => xs.flatMap fun x => b :: sep ++ write x ns := by
  induction xs with
  | nil => exact nil
  | cons x xs ih =>
      simp only [List.flatMap_cons]
      refine (hsep.append_free (h x List.mem_cons_self)).append
        (ih fun y member => h y (List.mem_cons_of_mem _ member)) fun _ _ rest stop => ?_
      cases xs with
      | nil => exact stop
      | cons y xs => exact stopsAt_cons admits

/-- Texts with a space in front of each. -/
theorem spaced {α : Type} {xs : List α} {write : α → Namespaces → Text}
    (admits : p Byte.space = false) (h : ∀ x ∈ xs, LaidOut p (write x)) :
    LaidOut p fun ns => xs.flatMap fun x => Byte.space :: write x ns := by
  have space : LaidOut Byte.none fun _ => [Byte.space] := gap (by decide)
  exact separated space admits h

end Rules
end LaidOut

section Terms
variable {ns : Namespaces} {iri : Text}

/-- An IRI is written as a word that shuns no more than a name. -/
theorem exists_writtenAs (h : ns.Plain) (clean : IsCleanIri iri) :
    ∃ (l : Lexeme) (shuns : Byte → Bool),
      Chunk.reference ns iri = .token (ns.writeIri iri) l shuns ∧
        l.WrittenAs ns (ns.writeIri iri) shuns ∧ ∀ b, shuns b = true → b.continuesName = true := by
  unfold Chunk.reference Namespaces.writeIri
  cases found : ns.entryFor? iri with
  | some entry =>
      obtain ⟨member, shortens⟩ := Namespaces.canShorten_of_entryFor? found
      simp only [canShorten, Bool.and_eq_true] at shortens
      have isLabel := h.label entry member (h.noColon entry member)
      exact ⟨.prefixedName entry.1 (iri.drop entry.2.length), Byte.continuesName, rfl,
        writtenAs_prefixedName isLabel member shortens.2, fun _ => id⟩
  | none => exact ⟨.iri iri, Byte.none, rfl, writtenAs_iri clean, fun _ shunned => by cases shunned⟩

/-- A name or an IRI does not end its line. -/
theorem laidOut_writeIri (clean : IsCleanIri iri) :
    LaidOut Byte.endsBadly fun ns => ns.writeIri iri := by
  refine ⟨[.token (Text.angled iri) (.iri iri) Byte.none], fun ns hns => ?_⟩
  obtain ⟨l, shuns, same, written, named⟩ := exists_writtenAs hns clean
  rw [List.map_singleton, under, same]
  refine ⟨List.append_nil _, fun ts laid ended stop => ⟨⟨written, ?_, laid⟩, ?_⟩⟩
  · refine stop.weaken fun b kept => Bool.eq_false_iff.mpr fun shunned => ?_
    simp [Byte.endsBadly, Byte.clings, named b shunned] at kept
  · exact .token ended fun _ => stop.weaken fun _ kept => (Bool.or_eq_false_iff.mp kept).2

theorem laidOut_quoted (value : Text) : LaidOut (· == Byte.quote) fun _ => quoted value :=
  .word (writtenAs_string value) rfl

theorem laidOut_string (value : Text) : LaidOut Byte.endsBadly fun _ => quoted value :=
  (laidOut_quoted value).weaken fun b same => by
    simp [Byte.endsBadly, Byte.clings, beq_iff_eq.mp same]

theorem laidOut_word {word : Text} (h : IsWord word) (other : (ofWord word).isReference = false) :
    LaidOut Byte.endsBadly fun _ => word :=
  (LaidOut.word (writtenAs_word h) other).of_name

theorem laidOut_literal {signed : Bool} {l : Literal} (h : l.Legal signed)
    (clean : ∀ datatype, l.datatype = some datatype → IsCleanIri datatype) :
    LaidOut Byte.endsBadly fun ns => l.write ns := by
  cases h with
  | plain value => exact laidOut_string value
  | @tagged value tag isTag =>
      have tail : LaidOut Byte.continuesName fun _ => Byte.atSign :: tag :=
        .word (writtenAs_languageTag isTag) rfl
      exact ((laidOut_quoted value).append_cons tail (by decide)).of_name
  | @typed value datatype _ =>
      have marks : LaidOut Byte.none fun _ => utf8 "^^" := .word writtenAs_doubleCaret rfl
      have tail := marks.append_free (laidOut_writeIri (clean datatype rfl))
      have whole := (laidOut_quoted value).append tail fun _ _ _ _ => stopsAt_cons (by decide)
      simpa [Literal.write] using whole
  | @number sign digits kind hsign _ numeral =>
      have number : LaidOut Byte.continuesName fun _ => digits :=
        .word (writtenAs_number numeral) rfl
      have signed : LaidOut Byte.none fun _ => sign := by
        rcases hsign with rfl | rfl | rfl
        · exact .nil
        · exact .byte (m := .plus) (by decide)
        · exact .byte (m := .minus) (by decide)
      exact (signed.append_free number).of_name
  | truth => exact (laidOut_word (by decide) (by decide) : LaidOut _ fun _ => utf8 "true")
  | falsehood => exact (laidOut_word (by decide) (by decide) : LaidOut _ fun _ => utf8 "false")

theorem laidOut_variable {name : Text} (h : IsVariableName name) :
    LaidOut Byte.continuesName fun _ => Byte.question :: name :=
  .word (writtenAs_variable h) rfl

theorem laidOut_term {signed : Bool} {t : Term} (h : t.node.Legal signed)
    (clean : t.node.Clean) : LaidOut Byte.endsBadly fun ns => t.write ns := by
  obtain ⟨node, span⟩ := t
  cases node with
  | iri value => exact laidOut_writeIri clean
  | literal l => exact laidOut_literal h clean
  | blank label => exact (LaidOut.word (writtenAs_blankLabel h) rfl).of_name
  | var name => exact (laidOut_variable h).of_name

theorem laidOut_typeWord : LaidOut Byte.endsBadly fun _ => utf8 "a" :=
  laidOut_word (by decide) (by decide)

theorem laidOut_predicate {signed : Bool} {t : Term} (h : t.node.Legal signed)
    (clean : t.node.Clean) : LaidOut Byte.endsBadly fun ns => t.writePredicate ns := by
  unfold Term.writePredicate
  by_cases isType : t.node = .iri Iri.rdfType
  · simp only [if_pos isType]
    exact laidOut_typeWord
  · simp only [if_neg isType]
    exact laidOut_term h clean

end Terms

section Paths
variable {ns : Namespaces}

theorem isFormed_of_isMemberChain {p : Path} (h : p.IsMemberChain) : p.IsFormed := by
  have member : ∀ p : Path, p.IsMember → p.IsFormed := by
    intro p h
    unfold Path.IsMember at h
    split at h
    · exact h
    · exact h
    · cases h
  induction p with
  | join how left right ihLeft _ =>
      cases how with
      | sequence => cases h
      | alternative => exact ⟨ihLeft h.1, member right h.2⟩
  | _ => exact member _ h

theorem laidOut_step {predicate : Term} (h : predicate.node.isIri = true)
    (clean : ∀ iri ∈ (Path.step predicate).iris, IsCleanIri iri) :
    LaidOut Byte.endsBadly fun ns => (Path.step predicate).write ns := by
  obtain ⟨node, span⟩ := predicate
  cases node with
  | iri value =>
      have isClean : IsCleanIri value := clean value (List.mem_singleton_self _)
      show LaidOut Byte.endsBadly fun ns => Term.writePredicate ns ⟨.iri value, span⟩
      unfold Term.writePredicate
      by_cases isType : Node.iri value = .iri Iri.rdfType
      · simp only [if_pos isType]
        exact laidOut_typeWord
      · simp only [if_neg isType]
        exact laidOut_writeIri isClean
  | _ => cases h

theorem laidOut_mark (times : Repetition) : LaidOut Byte.continuesName fun _ => [times.mark] := by
  cases times with
  | zeroOrMore =>
      exact (LaidOut.byte (m := .star) (by decide)).of_free
  | oneOrMore => exact (LaidOut.byte (m := .plus) (by decide)).of_free
  | zeroOrOne => exact .word writtenAs_question rfl

theorem avoids_caret_operand (hns : ns.Plain) {p : Path} (formed : p.IsFormed) (rest : Text) :
    Avoids Byte.caret (Path.bracketedIf (!p.isElement) (p.write ns) ++ rest) := by
  cases found : p.isElement with
  | true => exact Grammar.avoids_caret (Path.stopsAt_element hns.labelled found formed rest)
  | false => exact stopsAt_cons (by decide)

theorem avoids_pipe_operand (hns : ns.Plain) {p : Path} (formed : p.IsFormed) (rest : Text) :
    Avoids Byte.pipe (Path.bracketedIf p.isJoin (p.write ns) ++ rest) := by
  cases p with
  | join how left right => exact stopsAt_cons (by decide)
  | inverse inner => exact stopsAt_cons (by decide)
  | _ => exact Grammar.avoids_pipe (Path.stopsAt_element hns.labelled rfl formed rest)

/-- Every path in writing is laid out: by induction on the path, its parts in brackets or not. -/
theorem laidOut_path {p : Path} (formed : p.IsFormed)
    (clean : ∀ iri ∈ p.iris, IsCleanIri iri) : LaidOut Byte.endsBadly fun ns => p.write ns := by
  have open' : Byte.endsBadly Byte.rparen = false := by decide
  induction p with
  | step predicate => exact laidOut_step formed clean
  | inverse inner ih =>
      have caret : LaidOut (· == Byte.caret) fun _ => [Byte.caret] := .word writtenAs_caret rfl
      have inside : inner.IsFormed := formed
      exact caret.append ((ih inside clean).bracketedIf open' _)
        fun _ hns rest _ => avoids_caret_operand hns inside rest
  | repeated times inner ih =>
      have whole := ((ih formed clean).bracketedIf open' (!inner.isPrimary)).append_cons
        (laidOut_mark times) (by cases times <;> decide)
      exact whole.of_name
  | negated inner ih =>
      have bang : LaidOut (· == Byte.equals) fun _ => [Byte.bang] := .word writtenAs_bang rfl
      refine bang.append ?_ fun _ hns rest _ => Grammar.avoids_equals_set hns.labelled formed rest
      rcases formed with rfl | chain
      · exact (LaidOut.lparen.append_free LaidOut.rparen).of_free
      · exact (ih (isFormed_of_isMemberChain chain) clean).bracketedIf open' _
  | join how left right ihLeft ihRight =>
      obtain ⟨hleft, hright⟩ := formed
      have first := (ihLeft hleft fun iri member => clean iri (List.mem_append_left _ member))
        |>.bracketedIf open' (left.breaksLeft how)
      have second := (ihRight hright fun iri member => clean iri (List.mem_append_right _ member))
        |>.bracketedIf open' right.isJoin
      simp only [Path.write]
      cases how with
      | sequence =>
          have slash : LaidOut Byte.none fun _ => [Byte.slash] :=
            .byte (m := .slash) (by decide)
          exact first.append_cons (slash.append_free second) (by decide)
      | alternative =>
          have pipe : LaidOut (· == Byte.pipe) fun _ => [Byte.pipe] := .word writtenAs_pipe rfl
          refine first.append_cons (pipe.append second ?_) (by decide)
          exact fun _ hns rest _ => avoids_pipe_operand hns hright rest

end Paths

end SparqlMetrics
