import SparqlMetrics.Proofs.Grammar.LegalQueries
import SparqlMetrics.Proofs.Grammar.NestsTriples
import SparqlMetrics.Proofs.PrintedIris
import SparqlMetrics.Proofs.Reading.Limits
import SparqlMetrics.Proofs.Text.Leading

/-!
# Reading written literals again

A literal is written between quotes with its tag or datatype, or as the number or truth value that
it is. Whatever bytes its value has, its text is free of lexical errors, and it is read as the
literal again, with white space or nothing behind it. Of a datatype this asks that its own print
stands for it. Main statement: `Literal.readsBack`.
-/
namespace SparqlMetrics

open Lexeme

/-! ## White space behind a text -/

namespace Lexeme

variable {s rest blank : Text} {l : Lexeme}

theorem skipGap_white (white : Text.IsWhite blank) (inComment : Bool) :
    skipGap inComment blank = [] := by
  induction blank generalizing inComment with
  | nil => rfl
  | cons b blank ih =>
      have tail := ih fun c member => white c (List.mem_cons_of_mem _ member)
      cases inComment with
      | true => simp [skipGap, tail]
      | false => simp [skipGap, white b List.mem_cons_self, tail]

/-- A gap with white space behind it is a gap. -/
theorem skipGap_append_white {inComment : Bool} (gap : skipGap inComment s = [])
    (white : Text.IsWhite blank) : skipGap inComment (s ++ blank) = [] := by
  induction s generalizing inComment with
  | nil => exact skipGap_white white inComment
  | cons b rest ih =>
      rw [List.cons_append]
      rw [skipGap] at gap ⊢
      split at gap
      · next inside =>
        rw [if_pos inside]
        exact ih gap
      split at gap
      · next outside space =>
        rw [if_neg outside, if_pos space]
        exact ih gap
      split at gap
      · next outside solid hash =>
        rw [if_neg outside, if_neg solid, if_pos hash]
        exact ih gap
      · cases gap

/-- White space and comments break a name. -/
theorem breaks_of_gap (gap : skipGap false s = []) : Breaks s := by
  cases s with
  | nil => exact stopsAt_nil _
  | cons b rest =>
      apply stopsAt_cons
      have classes : b.isSpace = true ∨ (b == Byte.hash) = true → b.continuesName = false :=
        Byte.forall_of_digits (P := fun b => b.isSpace = true ∨ (b == Byte.hash) = true →
          b.continuesName = false) (by decide) b
      apply classes
      rw [skipGap, if_neg Bool.false_ne_true] at gap
      split at gap
      · next space => exact .inl space
      split at gap
      · next hash => exact .inr hash
      · cases gap

/-- A text without lexemes is a gap. -/
theorem gap_of_lexemes (h : (TokenStream.ofText s).lexemes = ([], .endOfInput)) :
    skipGap false s = [] := by
  cases ahead : skipGap false s with
  | nil => rfl
  | cons b more =>
      cases found : read (skipGap false s) with
      | ok pair =>
          have full := (readBy_of_readFrom (ahead ▸ found)).full
          have lexemes := TokenStream.lexemes_of_opens ⟨found, full⟩
          rw [h] at lexemes
          cases (Prod.mk.inj lexemes).1
      | error fault =>
          rw [TokenStream.lexemes_of_fault found] at h
          cases (Prod.mk.inj h).2

/-- A lexeme that stands for an IRI is read alike when white space follows the gap behind it. -/
theorem Opens.append_white {ns : Namespaces} {iri : Text} (h : Opens s l rest)
    (stands : ns.iriOf? l = some iri) (gap : skipGap false rest = [])
    (white : Text.IsWhite blank) : Opens (s ++ blank) l (rest ++ blank) := by
  obtain ⟨front, cut, passes⟩ := exists_gap false s
  have nonempty : skipGap false s ≠ [] := by
    intro blank
    have last := h.1
    rw [blank] at last
    obtain ⟨rfl, _⟩ := Prod.mk.inj (Except.ok.inj last)
    cases h.2
  have opens : Opens (skipGap false s ++ blank) l (rest ++ blank) := by
    cases l with
    | iri reference =>
        rw [angled_of_read h.1, List.append_assoc]
        exact opens_iri (spelled_read h.1)
    | prefixedName label name =>
        obtain ⟨tail, same, found⟩ := split_of_read h.1
        rw [same, List.append_assoc, List.cons_append]
        have breaks := breaks_of_gap (skipGap_append_white gap white)
        exact opens_prefixedName (spelled_read h.1) (localName_append found breaks)
    | _ => cases stands
  have whole : s ++ blank = front ++ (skipGap false s ++ blank) := by
    rw [← List.append_assoc, ← cut]
  refine ⟨?_, h.2⟩
  rw [whole, passes nonempty]
  exact opens.1

end Lexeme

namespace Cursor

/-- In front of a gap no token is ahead. -/
theorem before_gap {s : Text} (gap : skipGap false s = []) : before s = before [] := by
  simp only [before, TokenStream.lexemes_of_gap gap, TokenStream.lexemes_of_gap (s := []) rfl]

end Cursor

theorem Text.IsWhite.endsTerm {blank : Text} (white : Text.IsWhite blank) : EndsTerm blank where
  parts b first :=
    Byte.of_isSpace (P := fun b => b.clings = false) (white b (List.mem_of_mem_head? first))
      (by decide)
  noTag := by
    rw [Text.first, Cursor.before_gap (skipGap_white white false)]
    exact congrArg Lexeme.continuesString Text.first_nil

/-- A print that stands for an IRI does so in front of white space. -/
theorem Namespaces.ReadsBack.opens {ns : Namespaces} {iri blank : Text} (h : ns.ReadsBack iri)
    (white : Text.IsWhite blank) :
    ∃ l rest, Opens (ns.writeIri iri ++ blank) l rest ∧ ns.iriOf? l = some iri ∧
      skipGap false rest = [] := by
  obtain ⟨l, whole, stands⟩ := h
  obtain ⟨rest, opens, noLexemes⟩ := TokenStream.exists_opens whole
  have gap := gap_of_lexemes noLexemes
  exact ⟨l, rest ++ blank, opens.append_white stands gap white, stands,
    skipGap_append_white gap white⟩

/-! ## Reading with white space behind -/

namespace Grammar

open SparqlMetrics.Parser TwoRuns Cursor

section Reading
variable {α : Type} {ns : Namespaces} {p : Parser α} {x : α} {s blank rest : Text}
  {l : Lexeme}

/-- What is read in front of white space is read with it. -/
theorem Fares.white (h : Fares p s True x blank) (white : Text.IsWhite blank) (nonempty : s ≠ []) :
    Fares p (s ++ blank) True x [] := by
  induction blank generalizing s with
  | nil => rwa [List.append_nil]
  | cons b blank ih =>
      have space := white b List.mem_cons_self
      have further := ih (h.trailing space nonempty)
        (fun c member => white c (List.mem_cons_of_mem _ member)) (by simp)
      rwa [List.append_assoc] at further

theorem resolvedIri_of_iriOf? {iri : Text} (stands : ns.iriOf? l = some iri) (first : s.first = l) :
    resolvedIri ns (before s) = .ok (iri, before s) := by
  have here : (before s).token.lexeme = l := first
  cases l with
  | iri reference =>
      have resolved : ns.resolve? reference = some iri := stands
      simp [resolvedIri, Parser.token, here, resolved, bind, StateT.bind, Except.bind, pure_apply]
  | prefixedName label name =>
      have expanded : ns.expand? label name = some iri := stands
      simp [resolvedIri, Parser.token, here, expanded, bind, StateT.bind, Except.bind, pure_apply]
  | _ => cases stands

/-- A text with one token and a gap behind it is passed over as a whole. -/
theorem fares_skip_gap (opens : Opens s l rest) (gap : skipGap false rest = []) :
    Fares skip s True () [] := by
  have whole : s ++ [] = s := List.append_nil s
  refine ⟨fun _ => ?_, fun absurdity => absurd trivial absurdity, fun _ => ?_⟩
  · show Except.ok ((), (before (s ++ [])).advance) = _
    rw [whole, advance_before opens, before_gap gap]
  · rw [whole, Text.tokens_of_opens opens, Text.tokens_nil]
    exact Nat.succ_pos _

/-- A datatype whose print stands for it is read behind a string, with white space behind it. -/
theorem fares_stringTail_readsBack (value : Text) {datatype : Text} (h : ns.ReadsBack datatype)
    (white : Text.IsWhite blank) :
    Fares (stringTail ns value) (utf8 "^^" ++ (ns.writeIri datatype ++ blank)) True
      { value, datatype := some datatype } [] := by
  obtain ⟨l, rest, opens, stands, gap⟩ := h.opens white
  have marks := opens_doubleCaret (ns.writeIri datatype ++ blank)
  refine Reads.lexeme (l := .symbol .doubleCaret) ?_ ?_
  · rw [List.append_nil]
    exact Text.first_of_opens marks
  · refine Fares.then (fares_skip (by rwa [List.append_nil])) ?_
    refine Reads.peek (resolvedIri_of_iriOf? stands ?_) ?_
    · rw [List.append_nil]
      exact Text.first_of_opens opens
    exact (fares_skip_gap opens gap).bind_pure rfl

end Reading

end Grammar

open SparqlMetrics.Grammar TwoRuns Cursor

namespace Literal

variable {ns : Namespaces} {l : Literal}

/-- Whether a literal has nothing but its value, or a language tag, or a datatype whose print stands
for it. -/
def Annotated (ns : Namespaces) (l : Literal) : Prop :=
  match l.language, l.datatype with
  | none, none => True
  | some tag, none => IsLanguageTag tag
  | none, some datatype => ns.ReadsBack datatype
  | some _, some _ => False

/-- Whether the written form of a literal is read as the literal, with white space or nothing behind
it: its text has no lexical error, and all of its tokens are read. -/
def ReadsBack (ns : Namespaces) (l : Literal) : Prop :=
  ∀ blank, Text.IsWhite blank →
    let stream := TokenStream.ofText (l.write ns ++ blank)
    stream.last.lexeme = .endOfInput ∧
      ∃ t c', literalTerm ns (ofStream stream) = .ok (t, c') ∧ t.node = .literal l ∧ c'.ahead = []

/-- Where a literal is read to the end of a text, the text has no lexical error. -/
theorem last_of_fares {s : Text} {t : Term} (h : Fares (literalTerm ns) s True t []) :
    (TokenStream.ofText s).last.lexeme = .endOfInput := by
  have terminal := (at_before (s ++ [])).isTerminal
  have nests : Parser.Nests (literalTerm ns) := nests_literalTerm
  have leaves := nests (before (s ++ [])) terminal trivial
  rw [h.result trivial] at leaves
  obtain ⟨w, reached, _⟩ := leaves
  rw [List.append_nil] at reached
  calc (TokenStream.ofText s).last.lexeme = (before s).last.lexeme := rfl
    _ = (before []).last.lexeme := congrArg Token.lexeme reached.last.symm
    _ = .endOfInput := congrArg Prod.snd (TokenStream.lexemes_of_gap (s := []) rfl)

/-- What is read in front of all white space is read back. -/
theorem readsBack_of_fares
    (h : ∀ blank, Text.IsWhite blank →
      Fares (literalTerm ns) (l.write ns ++ blank) True ⟨.literal l, {}⟩ []) : l.ReadsBack ns := by
  intro blank white
  have reads := h blank white
  have place := at_ofStream (l.write ns ++ blank)
  rw [← List.append_nil (l.write ns ++ blank)] at place
  obtain ⟨t, c', read, same, noRest⟩ :=
    reads.ok_of_at trivial (tracks_literalTerm (S := ofOneText) rfl) place rfl
  rw [List.append_nil] at read
  refine ⟨last_of_fares reads, t, c', read, ?_, ?_⟩
  · obtain ⟨node, span⟩ := t
    change bare ⟨node, span⟩ = bare ⟨.literal l, {}⟩ at same
    rw [bare_eq, bare_eq] at same
    exact congrArg Term.node same
  · rw [Text.tokens_nil] at noRest
    exact List.eq_nil_of_length_eq_zero noRest

theorem quoted_ne_nil (value : Text) : quoted value ≠ [] := by simp [quoted]

/-- A literal between quotes is read back. -/
theorem readsBack_of_annotated (long : l.short = false) (h : l.Annotated ns) : l.ReadsBack ns := by
  apply readsBack_of_fares
  intro blank white
  obtain ⟨value, language, datatype, short⟩ := l
  obtain rfl : short = false := long
  have ends := white.endsTerm
  cases language with
  | none =>
      cases datatype with
      | none =>
          have read : Fares (literalTerm ns) (quoted value ++ []) True
              ⟨.literal { value }, {}⟩ blank :=
            fares_literalTerm_quoted value ends.parts.avoids_quote
              (fares_stringTail_plain value ends)
          rw [List.append_nil] at read
          exact read.white white (quoted_ne_nil value)
      | some datatype =>
          have typed : ns.ReadsBack datatype := h
          have read : Fares (literalTerm ns)
              (quoted value ++ (utf8 "^^" ++ (ns.writeIri datatype ++ blank))) True
              ⟨.literal { value, datatype := some datatype }, {}⟩ [] :=
            fares_literalTerm_quoted value (stopsAt_cons (by decide))
              (fares_stringTail_readsBack value typed white)
          simpa only [write, Bool.false_eq_true, if_false, List.append_assoc] using read
  | some tag =>
      cases datatype with
      | none =>
          have isTag : IsLanguageTag tag := h
          have read : Fares (literalTerm ns) (quoted value ++ Byte.atSign :: tag) True
              ⟨.literal { value, language := some tag }, {}⟩ blank :=
            fares_literalTerm_quoted value (stopsAt_cons (by decide))
              (fares_stringTail_tagged value isTag ends.parts)
          exact read.white white (List.append_ne_nil_of_left_ne_nil (quoted_ne_nil value) _)
      | some datatype => exact h.elim

/-- A literal that is written as its value and read as one is read back. -/
theorem readsBack_of_legal {signed : Bool} (short : l.short = true) (h : l.Legal signed) :
    l.ReadsBack ns := by
  apply readsBack_of_fares
  intro blank white
  have parts := white.endsTerm.parts
  cases h with
  | plain | tagged | typed => cases short
  | number hsign _ numeral =>
      obtain ⟨b, more, rfl, _⟩ := isDigit_head_numeral numeral
      exact (fares_literalTerm_number hsign numeral parts).white white (by simp)
  | truth => exact (fares_literalTerm_truth (.inl rfl) parts).white white (by decide)
  | falsehood => exact (fares_literalTerm_truth (.inr rfl) parts).white white (by decide)

end Literal

/-- A check of every literal of a tree. -/
def literalChecks (P : Literal → Prop) : NodeChecks where
  term t := ∀ l, t.node = .literal l → P l

theorem legalChecks_implies_readsBack :
    legalChecks.Implies (literalChecks fun l => l.short = true → ∀ ns, l.ReadsBack ns) where
  term t legal l same short ns := by
    simp only [legalChecks, same] at legal
    exact Literal.readsBack_of_legal short legal
  data _ _ := trivial
  expression _ _ := trivial
  element _ _ := trivial
  group _ _ := trivial
  query _ _ := trivial

/-- Under any namespaces, a literal with any value between quotes is read back, if it has no more
than a tag as it is spelled or a datatype whose print stands for it; and so are the numbers and
truth values of every query that is read. -/
theorem Literal.readsBack :
    (∀ (ns : Namespaces) (l : Literal), l.short = false → l.Annotated ns → l.ReadsBack ns) ∧
    ∀ (s : Text) (unit : QueryUnit), QueryUnit.parse s = .ok unit →
      unit.query.Everywhere (literalChecks fun l => l.short = true → ∀ ns, l.ReadsBack ns) := by
  constructor
  · exact fun _ _ long annotated => readsBack_of_annotated long annotated
  · intro s unit read
    have legal := (QueryUnit.legal_of_parse read).query
    exact Query.everywhere_mono legalChecks_implies_readsBack _ legal

/-- A value that opens and ends with quotes and holds a backslash, a line feed, a zero byte and a
byte of no encoding. -/
def hardValue : Text := [Byte.quote, Byte.backslash, Byte.newline, 0x00, 0xFF, Byte.quote]

/-- A namespace under a label. -/
def shortNamespaces : Namespaces := { entries := [(utf8 "e", utf8 "urn:e:")] }

/-- A hard value with a datatype under a label, and the numbers and truth values of a table. -/
theorem Literal.readsBack_hardValue :
    ({ value := hardValue, datatype := some (utf8 "urn:e:t") } : Literal).ReadsBack
      shortNamespaces ∧
    ∃ unit, QueryUnit.parse (utf8 "ASK\x7bVALUES ?x\x7b1 +0.5 -2E7 true\x7d\x7d") = .ok unit ∧
      unit.query.Everywhere (literalChecks fun l => l.short = true → ∀ ns, l.ReadsBack ns) := by
  have legal : shortNamespaces.Legal := by
    constructor
    case label =>
      intro entry member _
      rw [List.mem_singleton.mp member]
      exact .inr (by decide +kernel)
    case base => exact nofun
    all_goals decide
  have found : shortNamespaces.entryFor? (utf8 "urn:e:t") = some (utf8 "e", utf8 "urn:e:") := by
    decide
  obtain ⟨unit, read⟩ := QueryUnit.exists_of_isOk
    (s := utf8 "ASK\x7bVALUES ?x\x7b1 +0.5 -2E7 true\x7d\x7d") (by decide +kernel)
  constructor
  · exact Literal.readsBack.1 _ _ rfl (Namespaces.readsBack_of_not_mem legal found (by decide))
  · exact ⟨unit, read, Literal.readsBack.2 _ _ read⟩

end SparqlMetrics
