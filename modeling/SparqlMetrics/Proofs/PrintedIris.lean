import SparqlMetrics.Proofs.Grammar.LegalQueries
import SparqlMetrics.Proofs.Prologue
import SparqlMetrics.Proofs.Reading.Terms
import SparqlMetrics.Proofs.Token.Splice

/-!
# Printed IRIs

An IRI is printed under the label of a declared namespace, or between brackets when no label will do.
The print is one token that stands for the IRI in two cases: under a label without a colon, and
between brackets when the IRI has no byte that a reference cannot hold. A label can hold a colon, as
a declaration takes everything up to the colon that ends its name, while a name is looked up by what
stands before its first colon. What is printed under such a label is a name of a shorter label.
Main statement: `QueryUnit.readsBack_iff_of_parse`, for every IRI of every query.
-/
namespace SparqlMetrics

open Lexeme

namespace Namespaces

/-- The IRI that a lexeme stands for under declarations. -/
def iriOf? (ns : Namespaces) : Lexeme → Option Text
  | .iri reference => ns.resolve? reference
  | .prefixedName label localName => ns.expand? label localName
  | _ => none

/-- Whether the print of an IRI is one token that stands for it. -/
def ReadsBack (ns : Namespaces) (iri : Text) : Prop :=
  ∃ l, (TokenStream.ofText (ns.writeIri iri)).lexemes = ([l], .endOfInput) ∧
    ns.iriOf? l = some iri

def labelRoot (label : Text) : Text := label.takeWhile (· != Byte.colon)

def behindRoot (label : Text) : Text := (label.dropWhile (· != Byte.colon)).tail

/-- Whether a print under a label that holds a colon is one name of the label up to its first colon,
and that name stands for the IRI as well. -/
def IsNameOfRoot (ns : Namespaces) (iri : Text) (entry : Text × Text) : Prop :=
  ∃ name behind,
    localName false (behindRoot entry.1 ++ Byte.colon :: iri.drop entry.2.length) =
      (name, behind) ∧
    (TokenStream.ofText behind).lexemes = ([], .endOfInput) ∧
    ns.expand? (labelRoot entry.1) name = some iri

/-- What an IRI needs for its print to be read back. -/
def IsPrintable (ns : Namespaces) (iri : Text) : Prop :=
  match ns.entryFor? iri with
  | some entry => Byte.colon ∉ entry.1 ∨ ns.IsNameOfRoot iri entry
  | none => IsCleanIri iri

/-- Declarations whose labels up to their first colon are spelled as labels. -/
def Rooted (ns : Namespaces) : Prop := ∀ entry ∈ ns.entries, IsPrefixLabel (labelRoot entry.1)

theorem labelRoot_of_not_mem {label : Text} (free : Byte.colon ∉ label) :
    labelRoot label = label := by
  have all : ∀ b ∈ label, (b != Byte.colon) = true := fun b member => by
    simpa using ne_of_mem_of_not_mem member free
  have cut := takeWhile_run all (stopsAt_nil _)
  rwa [List.append_nil] at cut

theorem labelRoot_append {label : Text} (free : Byte.colon ∉ label) (rest : Text) :
    labelRoot (label ++ Byte.colon :: rest) = label := by
  refine takeWhile_run (fun b member => ?_) (stopsAt_cons (by simp))
  simpa using ne_of_mem_of_not_mem member free

theorem labelRoot_append_behindRoot {label : Text} (h : Byte.colon ∈ label) :
    labelRoot label ++ Byte.colon :: behindRoot label = label := by
  have cut := List.takeWhile_append_dropWhile (p := (· != Byte.colon)) (l := label)
  cases drop : label.dropWhile (· != Byte.colon) with
  | nil =>
      rw [drop, List.append_nil] at cut
      have passed := List.all_eq_true.mp List.all_takeWhile _ (cut.symm ▸ h)
      simp at passed
  | cons b rest =>
      have stop := List.head?_dropWhile_not (· != Byte.colon) label
      obtain rfl : b = Byte.colon := by simpa [drop] using stop
      rw [drop] at cut
      rw [labelRoot, behindRoot, drop, List.tail_cons, cut]

end Namespaces

namespace Grammar

open SparqlMetrics.Parser

theorem root_of_declaredLabel? {here : Lexeme} (spelled : here.Spelled) {label : Text}
    (h : declaredLabel? here = some label) : IsPrefixLabel (Namespaces.labelRoot label) := by
  obtain ⟨first, name, rfl⟩ := prefixedName_of_declaredLabel? h
  have isLabel : IsPrefixLabel first := spelled
  have free := colon_not_mem isLabel
  cases name with
  | nil =>
      obtain rfl : first = label := Option.some.inj h
      rwa [Namespaces.labelRoot_of_not_mem free]
  | cons b name =>
      simp only [declaredLabel?] at h
      split at h
      · obtain rfl := Option.some.inj h
        rwa [Namespaces.labelRoot_append free]
      · cases h

theorem rooted_of_readsPrologue {ns ms : Namespaces} {c c' : Cursor} (h : ReadsPrologue ns c ms c')
    (spelled : c.Spelled) (rooted : ns.Rooted) : ms.Rooted := by
  induction h with
  | stop => exact rooted
  | step read _ ih =>
      cases read with
      | base => exact ih spelled.advance.advance rooted
      | «namespace» _ declared _ _ =>
          refine ih spelled.advance.advance.advance fun entry member => ?_
          rcases Namespaces.mem_setEntry member with rfl | known
          · exact root_of_declaredLabel? spelled.following declared
          · exact rooted entry known

end Grammar

namespace Namespaces

variable {ns : Namespaces} {iri : Text} {l : Lexeme}

/-- A text of one token opens with it, and no token stands behind it. -/
theorem behind_of_lexemes {s rest : Text} (opens : Opens s l rest) {l' : Lexeme}
    (h : (TokenStream.ofText s).lexemes = ([l'], .endOfInput)) :
    l = l' ∧ (TokenStream.ofText rest).lexemes = ([], .endOfInput) := by
  rw [TokenStream.lexemes_of_opens opens] at h
  obtain ⟨heads, last⟩ := Prod.mk.inj h
  obtain ⟨same, behind⟩ := List.cons.inj heads
  exact ⟨same, Prod.ext behind last⟩

theorem lexemes_of_opens_whole {s rest : Text} (opens : Opens s l rest)
    (behind : (TokenStream.ofText rest).lexemes = ([], .endOfInput)) :
    (TokenStream.ofText s).lexemes = ([l], .endOfInput) := by
  rw [TokenStream.lexemes_of_opens opens, behind]

theorem writeIri_of_entryFor? {entry : Text × Text} (found : ns.entryFor? iri = some entry) :
    ns.writeIri iri = entry.1 ++ Byte.colon :: iri.drop entry.2.length := by
  rw [writeIri, found]

theorem writeIri_of_none (noEntry : ns.entryFor? iri = none) : ns.writeIri iri = Text.angled iri := by
  rw [writeIri, noEntry]

/-- Under a label without a colon the print is the name of the IRI. -/
theorem readsBack_of_not_mem (h : ns.Legal) {entry : Text × Text}
    (found : ns.entryFor? iri = some entry) (free : Byte.colon ∉ entry.1) : ns.ReadsBack iri := by
  have isLabel := h.label entry (canShorten_of_entryFor? found).1 free
  obtain ⟨name, opens, expanded⟩ := opens_name h.nodup found isLabel (stopsAt_nil _)
  rw [List.append_nil] at opens
  exact ⟨_, lexemes_of_opens_whole opens (TokenStream.lexemes_of_gap rfl), expanded⟩

/-- Under a label with a colon the print opens with a name of what stands before that colon. -/
theorem readsBack_iff_isNameOfRoot (rooted : ns.Rooted) {entry : Text × Text}
    (found : ns.entryFor? iri = some entry) (colon : Byte.colon ∈ entry.1) :
    ns.ReadsBack iri ↔ ns.IsNameOfRoot iri entry := by
  have isLabel := rooted entry (canShorten_of_entryFor? found).1
  have split : ns.writeIri iri = labelRoot entry.1 ++ Byte.colon ::
      (behindRoot entry.1 ++ Byte.colon :: iri.drop entry.2.length) := by
    rw [writeIri_of_entryFor? found, ← List.cons_append, ← List.append_assoc,
      labelRoot_append_behindRoot colon]
  rw [ReadsBack, split]
  constructor
  · rintro ⟨l, whole, stands⟩
    cases tail : localName false (behindRoot entry.1 ++ Byte.colon :: iri.drop entry.2.length) with
    | mk name behind =>
        obtain ⟨rfl, ends⟩ := behind_of_lexemes (opens_prefixedName isLabel tail) whole
        exact ⟨name, behind, tail, ends, stands⟩
  · rintro ⟨name, behind, tail, ends, expanded⟩
    exact ⟨_, lexemes_of_opens_whole (opens_prefixedName isLabel tail) ends, expanded⟩

/-- What opens with an angle bracket and stands for an IRI is a reference between brackets. -/
theorem read_less {s rest : Text} (h : read (Byte.less :: s) = .ok (l, rest))
    (stands : ns.iriOf? l = some iri) :
    ∃ reference, iriReference? s = some (reference, rest) ∧ l = .iri reference := by
  have less : readLess s = (l, rest) := Except.ok.inj h
  unfold readLess at less
  split at less
  · next reference behind found =>
    obtain ⟨rfl, rfl⟩ := Prod.mk.inj less
    exact ⟨reference, found, rfl⟩
  · unfold markOf at less
    split at less
    · obtain ⟨rfl, _⟩ := Prod.mk.inj less
      cases stands
    · obtain ⟨rfl, _⟩ := Prod.mk.inj less
      cases stands

/-- Between brackets the print is read back if brackets can hold the IRI. -/
theorem readsBack_iff_isCleanIri (h : ns.Legal) (absolute : Iri.hasScheme iri = true)
    (noEntry : ns.entryFor? iri = none) : ns.ReadsBack iri ↔ IsCleanIri iri := by
  rw [ReadsBack, writeIri_of_none noEntry]
  constructor
  · rintro ⟨l, whole, stands⟩
    obtain ⟨rest, opens, _⟩ := TokenStream.exists_opens whole
    have shape : skipGap false (Text.angled iri) = Byte.less :: (iri ++ [Byte.greater]) := rfl
    obtain ⟨reference, found, rfl⟩ := read_less (shape ▸ opens.1) stands
    exact h.clean_resolve? (clean_of_iriReference? found) stands
  · intro clean
    have opens := opens_iri (t := []) clean
    rw [List.append_nil] at opens
    exact ⟨_, lexemes_of_opens_whole opens (TokenStream.lexemes_of_gap rfl),
      resolve?_of_hasScheme ns absolute⟩

/-- The print of an absolute IRI is read back if and only if it is printable. -/
theorem readsBack_iff (h : ns.Legal) (rooted : ns.Rooted) (absolute : Iri.hasScheme iri = true) :
    ns.ReadsBack iri ↔ ns.IsPrintable iri := by
  cases found : ns.entryFor? iri with
  | none =>
      rw [IsPrintable, found]
      exact readsBack_iff_isCleanIri h absolute found
  | some entry =>
      rw [IsPrintable, found]
      by_cases colon : Byte.colon ∈ entry.1
      · simp only [colon, not_true_eq_false, false_or]
        exact readsBack_iff_isNameOfRoot rooted found colon
      · exact iff_of_true (readsBack_of_not_mem h found colon) (.inl colon)

end Namespaces

/-- The IRIs of a node: its own or that of its datatype. -/
def Node.iris : Node → List Text
  | .iri value => [value]
  | .literal l => l.datatype.toList
  | _ => []

def Element.pathIris : Element → List Text
  | .path _ p _ _ => p.iris
  | _ => []

/-- A check of every IRI of a tree: those of its terms, datatypes and path steps, and those of its
dataset. -/
def iriChecks (P : Text → Prop) : NodeChecks where
  term t := ∀ iri ∈ t.node.iris, P iri
  element e := ∀ iri ∈ e.pathIris, P iri
  query q := ∀ clause ∈ q.dataset, P clause.iri

theorem hasScheme_of_legal {signed : Bool} {node : Node} (h : node.Legal signed) :
    ∀ iri ∈ node.iris, Iri.hasScheme iri = true := by
  cases node with
  | iri value => exact List.forall_mem_singleton.mpr h
  | literal l =>
      intro iri member
      cases h with
      | plain | tagged => cases member
      | typed _ absolute => exact List.mem_singleton.mp member ▸ absolute
      | @number _ _ kind =>
          rw [List.mem_singleton.mp member]
          cases kind <;> decide
      | truth | falsehood =>
          rw [List.mem_singleton.mp member]
          decide
  | blank | var => exact List.forall_mem_nil _

theorem legalChecks_implies_hasScheme :
    legalChecks.Implies (iriChecks fun iri => Iri.hasScheme iri = true) where
  term _ h := hasScheme_of_legal h
  data _ _ := trivial
  expression _ _ := trivial
  element e h := by
    cases e with
    | path => exact h.2
    | _ => exact List.forall_mem_nil _
  group _ _ := trivial
  query _ h := h.2.2.2.1

theorem iriChecks_implies {P Q : Text → Prop} (h : ∀ iri, P iri → Q iri) :
    (iriChecks P).Implies (iriChecks Q) where
  term _ all iri member := h iri (all iri member)
  data _ _ := trivial
  expression _ _ := trivial
  element _ all iri member := h iri (all iri member)
  group _ _ := trivial
  query _ all clause member := h clause.iri (all clause member)

namespace QueryUnit

/-- For every IRI of a query that is read, its print is one token that stands for it if and only if
it is printable under the declarations of the query. -/
theorem readsBack_iff_of_parse {s : Text} {unit : QueryUnit} (h : parse s = .ok unit) :
    unit.query.Everywhere (iriChecks fun iri =>
      unit.namespaces.ReadsBack iri ↔ unit.namespaces.IsPrintable iri) := by
  have legal := legal_of_parse h
  obtain ⟨_, _, prologue, _⟩ := parse_eq_ok.mp h
  have rooted := Grammar.rooted_of_readsPrologue prologue (Cursor.spelled_ofStream s)
    (List.forall_mem_nil _)
  have absolute := Query.everywhere_mono legalChecks_implies_hasScheme _ legal.query
  exact Query.everywhere_mono
    (iriChecks_implies fun _ => Namespaces.readsBack_iff legal.namespaces rooted) _ absolute

/-- A test for one triple under a label that holds a colon. -/
def coloned : QueryUnit where
  namespaces := ⟨[(utf8 "a:b", utf8 "urn:")], none⟩
  query :=
    { form := .ask
      resultVariables := [utf8 "s"]
      dataset := []
      root := ⟨.group, [.triple ⟨⟨.var (utf8 "s"), ⟨21, 23⟩⟩, ⟨.iri (utf8 "urn:p"), ⟨23, 30⟩⟩,
        ⟨.iri (utf8 "x:y"), ⟨30, 35⟩⟩, ⟨21, 35⟩⟩], [], none, ⟨20, 36⟩⟩
      groupBy := []
      having := []
      orderBy := []
      limit := none
      offset := none
      values := none
      span := ⟨0, 36⟩ }

/-- Under the label `a:b` the print of an IRI is a name of the label `a`, which is not declared. The
IRI that is printed between brackets is read back. -/
theorem readsBack_coloned : ∃ unit,
    parse (utf8 "PREFIX a:b:<urn:>ASK\x7b?s<urn:p><x:y>\x7d") = .ok unit ∧
      ¬ unit.namespaces.ReadsBack (utf8 "urn:p") ∧ unit.namespaces.ReadsBack (utf8 "x:y") := by
  have read : parse (utf8 "PREFIX a:b:<urn:>ASK\x7b?s<urn:p><x:y>\x7d") = .ok coloned := by
    set_option maxRecDepth 100000 in with_unfolding_all rfl
  obtain ⟨_, _, ⟨_, _, ⟨⟨_, _, predicate, object⟩, _⟩, _⟩, _⟩ := readsBack_iff_of_parse read
  have shortened : coloned.namespaces.entryFor? (utf8 "urn:p") = some (utf8 "a:b", utf8 "urn:") := by
    decide
  have bracketed : coloned.namespaces.entryFor? (utf8 "x:y") = none := by decide
  refine ⟨coloned, read, fun back => ?_, ?_⟩
  · have printable := (predicate _ List.mem_cons_self).mp back
    rw [Namespaces.IsPrintable, shortened] at printable
    rcases printable with free | ⟨name, _, _, _, expanded⟩
    · exact free (by decide)
    · have unknown : coloned.namespaces.find? (Namespaces.labelRoot (utf8 "a:b")) = none := by
        decide
      rw [Namespaces.expand?, unknown] at expanded
      cases expanded
  · refine (object _ List.mem_cons_self).mpr ?_
    rw [Namespaces.IsPrintable, bracketed]
    decide

end QueryUnit

end SparqlMetrics
