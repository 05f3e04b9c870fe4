import SparqlMetrics.Proofs.Grammar.LegalQueries
import SparqlMetrics.Proofs.Prologue
import SparqlMetrics.Proofs.Token.Splice
import SparqlMetrics.Proofs.Tree.Spanless

/-!
# Respelled names

A prefixed name behind the prologue may be spelled as the IRI that it stands for. Wherever the
grammar looks at a token, it takes a reference and a prefixed name alike, so the text with references
in the places of some names is read as the same query. A reference must be able to hold the IRI, and
white space around it keeps it off its neighbours. Main statement: `QueryUnit.parse_respelled`.
-/
namespace SparqlMetrics

open Lexeme

/-- White space of at least one byte. -/
def IsWhite (s : Text) : Prop := s ≠ [] ∧ ∀ b ∈ s, b.isSpace = true

/-- A choice of tokens, with the white space around the references that stand for them. -/
structure Respelling where
  chosen : Token → Bool
  before : Token → Text
  behind : Token → Text
  white : ∀ t, IsWhite (before t) ∧ IsWhite (behind t)

/-- The offset of the first token behind the prologue of a text. -/
def prologueEnd (s : Text) : Nat :=
  match Grammar.prologue (Cursor.ofStream (TokenStream.ofText s)) with
  | .ok (_, c) => c.token.start
  | .error _ => s.length

namespace Respelling

variable (r : Respelling) (ns : Namespaces) (start : Nat)

/-- The IRI of a token that is respelled: a chosen name from an offset on, whose IRI can stand
between brackets. -/
def iri? (t : Token) : Option Text :=
  match t.lexeme with
  | .prefixedName label name =>
    if r.chosen t && start ≤ t.start then
      (ns.expand? label name).filter fun iri => IsCleanIri iri
    else none
  | _ => none

/-- What stands in the place of a token that is respelled. -/
def word? (t : Token) : Option Text :=
  (r.iri? ns start t).map fun iri => r.before t ++ (Text.angled iri ++ r.behind t)

/-- The lexeme of a token or of what stands in its place. -/
def lexeme (t : Token) : Lexeme := ((r.iri? ns start t).map .iri).getD t.lexeme

/-- A text with the references of its chosen names in their places. -/
def text (s : Text) : Text := Text.splice (r.word? ns (prologueEnd s)) s

variable {r ns start} {t : Token} {iri : Text}

theorem iri?_eq_some (h : r.iri? ns start t = some iri) : ∃ label name,
    t.lexeme = .prefixedName label name ∧ start ≤ t.start ∧ ns.expand? label name = some iri ∧
      IsCleanIri iri := by
  unfold iri? at h
  split at h
  · next label name spelled =>
    split at h
    · next both =>
      simp only [Bool.and_eq_true, decide_eq_true_eq] at both
      obtain ⟨expanded, clean⟩ := Option.filter_eq_some_iff.mp h
      exact ⟨label, name, spelled, both.2, expanded, of_decide_eq_true clean⟩
    · cases h
  · cases h

theorem spells_white {s : Text} (h : ∀ b ∈ s, b.isSpace = true) : Spells s [] := by
  induction s with
  | nil => exact spells_nil
  | cons b rest ih =>
      have tail := ih fun c member => h c (List.mem_cons_of_mem _ member)
      exact tail.space (h b List.mem_cons_self)

theorem spliced (r : Respelling) (ns : Namespaces) (start : Nat) :
    TokenStream.Spliced (r.word? ns start) (r.lexeme ns start) where
  white {t word} found := by
    obtain ⟨iri, _, rfl⟩ := Option.map_eq_some_iff.mp found
    obtain ⟨nonempty, white⟩ := (r.white t).1
    cases before : r.before t with
    | nil => exact absurd before nonempty
    | cons b more => exact ⟨b, _, rfl, white b (before ▸ List.mem_cons_self)⟩
  spells {t word} found := by
    obtain ⟨iri, known, rfl⟩ := Option.map_eq_some_iff.mp found
    obtain ⟨_, _, _, _, _, clean⟩ := iri?_eq_some known
    rw [lexeme, known]
    exact (spells_white (r.white t).1.2).append
      ((spells_iri clean).append (spells_white (r.white t).2.2))
  kept {t} unchanged := by rw [lexeme, Option.map_eq_none_iff.mp unchanged]; rfl

theorem keyword?_lexeme (r : Respelling) (ns : Namespaces) (start : Nat) (t : Token) :
    (r.lexeme ns start t).keyword? = t.lexeme.keyword? := by
  unfold lexeme
  cases known : r.iri? ns start t with
  | none => rfl
  | some iri =>
      obtain ⟨label, name, spelled, _⟩ := iri?_eq_some known
      rw [spelled]
      rfl

theorem lexeme_of_lt (before : t.start < start) : r.lexeme ns start t = t.lexeme := by
  unfold lexeme
  cases known : r.iri? ns start t with
  | none => rfl
  | some iri =>
      obtain ⟨_, _, _, behind, _⟩ := iri?_eq_some known
      omega

theorem lexeme_of_isTerminal (terminal : t.lexeme.isTerminal = true) :
    r.lexeme ns start t = t.lexeme := by
  unfold lexeme
  cases known : r.iri? ns start t with
  | none => rfl
  | some iri =>
      obtain ⟨_, _, spelled, _⟩ := iri?_eq_some known
      rw [spelled] at terminal
      cases terminal

/-- Two runs under the same declarations, where the first one may have an absolute reference for a
name that stands for it. -/
def twoRuns (ns : Namespaces) : TwoRuns where
  rewriting := .withoutSpans
  escapes _ := False
  related ms ms' := ms = ns ∧ ms' = ns
  respelled reference label name :=
    Iri.hasScheme reference = true ∧ ns.expand? label name = some reference
  span_eq := TwoRuns.ofOneText.span_eq
  leaf_eq := TwoRuns.ofOneText.leaf_eq
  resolve := by
    rintro _ _ reference iri ⟨rfl, rfl⟩ found
    exact .inl ⟨iri, found, rfl⟩
  expand := by
    rintro _ _ label name iri ⟨rfl, rfl⟩ _ found
    exact .inl ⟨iri, found, rfl⟩
  respell := by
    rintro _ _ reference label name iri ⟨rfl, rfl⟩ ⟨absolute, expanded⟩ found
    obtain rfl := Option.some.inj (expanded.symm.trans found)
    exact ⟨reference, Namespaces.resolve?_of_hasScheme _ absolute, rfl⟩

theorem alike_lexeme (legal : ns.Legal) (t : Token) :
    Alike (twoRuns ns).respelled (r.lexeme ns start t) t.lexeme := by
  unfold lexeme
  cases known : r.iri? ns start t with
  | none => exact .same _
  | some iri =>
      obtain ⟨label, name, spelled, _, expanded, _⟩ := iri?_eq_some known
      rw [spelled]
      exact .iri ⟨legal.absolute_expand? expanded, expanded⟩

theorem aligned_of_maps (legal : ns.Legal) {c d : Cursor}
    (maps : c.Maps (r.lexeme ns start) d) (last : d.last.lexeme.isTerminal = true)
    (spelled : d.Spelled) : (twoRuns ns).Aligned c d where
  ahead := by
    have same : List.Forall₂ (fun t u => t.lexeme = r.lexeme ns start u) c.ahead d.ahead := by
      have lexemes := maps.ahead
      rwa [← List.forall₂_eq_eq_eq, List.forall₂_map_left_iff, List.forall₂_map_right_iff]
        at lexemes
    exact same.imp fun t u lexemes => lexemes ▸ alike_lexeme legal u
  last := maps.last.trans (lexeme_of_isTerminal last)
  blankCount := maps.blankCount
  spelled := spelled

theorem spelled_of_readsPrologue {ms ms' : Namespaces} {d d' : Cursor}
    (h : Grammar.ReadsPrologue ms d ms' d') (spelled : d.Spelled) : d'.Spelled := by
  obtain ⟨suffix, last⟩ := Grammar.suffix_of_readsPrologue h
  exact ⟨fun t member => spelled.1 t (suffix.mem member), last ▸ spelled.2⟩

end Respelling

namespace Grammar

open SparqlMetrics.Parser TwoRuns

/-- A query opens with a keyword. -/
theorem full_of_queryBehind {ns : Namespaces} {c c' : Cursor} {unit : QueryUnit}
    (h : queryBehind ns c = .ok (unit, c')) : c.token.lexeme.isTerminal = false := by
  obtain ⟨b, c₁, first, _⟩ := bind_eq_ok.mp h
  cases form : c.token.lexeme.keyword? with
  | some k => exact isTerminal_of_keyword? form
  | none =>
      simp [body, lexeme, form, bind, StateT.bind, Except.bind, expected, fail] at first

end Grammar

namespace QueryUnit

variable {s : Text} {unit : QueryUnit}

/-- A query that is read is read of every respelled text: the same declarations, the same query but
for the spans, and so the same metrics and the same normal text. -/
theorem parse_respelled (h : parse s = .ok unit) (r : Respelling) :
    ∃ again, parse (r.text unit.namespaces s) = .ok again ∧
      again.namespaces = unit.namespaces ∧
      again.query.rewrite .withoutSpans = unit.query.rewrite .withoutSpans ∧
      (∀ m, again.measure m = unit.measure m) ∧ again.normalText = unit.normalText := by
  obtain ⟨d, d', prologue, behind⟩ := parse_eq_ok.mp h
  let start := Cursor.ofStream (TokenStream.ofText s)
  let start' := Cursor.ofStream (TokenStream.ofText (r.text unit.namespaces s))
  have last : start.last.lexeme.isTerminal = true := (Cursor.at_ofStream s).isTerminal
  have ends : prologueEnd s = d.token.start := by
    have read : Grammar.prologue start = .ok (unit.namespaces, d) :=
      (Grammar.repeatFrom_eq_ok last).mpr prologue
    rw [prologueEnd, show Cursor.ofStream (TokenStream.ofText s) = start from rfl, read]
  have lexemes := TokenStream.lexemes_splice (r.spliced unit.namespaces (prologueEnd s)) s
  have maps : start'.Maps (r.lexeme unit.namespaces (prologueEnd s)) start :=
    ⟨congrArg Prod.fst lexemes,
      (congrArg Prod.snd lexemes).trans (Respelling.lexeme_of_isTerminal last).symm, rfl⟩
  obtain ⟨c, prologue', maps'⟩ := prologue.maps
    (Respelling.keyword?_lexeme r unit.namespaces (prologueEnd s)) (TokenStream.pairwise_start s) last
    (Grammar.full_of_queryBehind behind)
    (fun t before => Respelling.lexeme_of_lt (ends ▸ before)) maps
  have aligned := Respelling.aligned_of_maps (legal_of_parse h).namespaces maps'
    (by rw [(Grammar.suffix_of_readsPrologue prologue).2]; exact last)
    (Respelling.spelled_of_readsPrologue prologue (Cursor.spelled_ofStream s))
  have tracks := TwoRuns.tracks_queryBehind
    (S := Respelling.twoRuns unit.namespaces) ⟨rfl, rfl⟩
  rcases tracks c d aligned unit d' behind with ⟨again, c', read, same, _⟩ | ⟨_, _, absurdity⟩
  · obtain ⟨namespaces, _⟩ := same.namespaces
    have query := same.query
    refine ⟨again, ?_, namespaces, query, measure_congr namespaces query, ?_⟩
    · exact parse_eq_ok.mpr ⟨c, c', by rw [namespaces]; exact prologue', by rw [namespaces]; exact read⟩
    · rw [normalText, normalText, namespaces, write_congr namespaces query]
  · exact absurdity.elim

/-- White space of one byte around the references of all names. -/
def everyName : Respelling where
  chosen _ := true
  before _ := [Byte.space]
  behind _ := [Byte.newline]
  white _ := ⟨⟨nofun, List.forall_mem_singleton.mpr rfl⟩, nofun, List.forall_mem_singleton.mpr rfl⟩

/-- A test whose names are terms, steps of a path, a function and a datatype, and one whose IRI no
brackets can hold. -/
def named : Text := utf8 "PREFIX p:<urn:>ASK\x7bp:s p:a*/^p:b p:o\\> FILTER(p:f(\"1\"^^p:t))\x7d"

/-- The test with references for its names. -/
def referred : Text :=
  utf8 ("PREFIX p:<urn:>ASK\x7b <urn:s>\n  <urn:a>\n*/^ <urn:b>\n p:o\\> FILTER( <urn:f>\n" ++
    "(\"1\"^^ <urn:t>\n))\x7d")

theorem parse_respelled_named : ∃ unit again, parse named = .ok unit ∧
    everyName.text unit.namespaces named = referred ∧ parse referred = .ok again ∧
      again.query.rewrite .withoutSpans = unit.query.rewrite .withoutSpans := by
  have texts : ((parse named).map fun unit =>
      everyName.text unit.namespaces named).toOption = some referred := by decide +kernel
  cases read : parse named with
  | error e =>
      rw [read] at texts
      cases texts
  | ok unit =>
      rw [read] at texts
      have text : everyName.text unit.namespaces named = referred := Option.some.inj texts
      obtain ⟨again, found, _, same, _⟩ := parse_respelled read everyName
      exact ⟨unit, again, rfl, text, text ▸ found, same⟩

end QueryUnit

end SparqlMetrics
