import SparqlMetrics.Proofs.Absolute
import SparqlMetrics.Proofs.Reading.Actions
import SparqlMetrics.Proofs.Token.Written
import SparqlMetrics.Proofs.Tree.Drift

/-!
# Reading written terms

A term is read from its written form under the declarations it is written under: an IRI under a label
or between brackets, a literal with its escapes, a number with its sign. What is asked of the
declarations is that their labels stand before their first colon.
-/
namespace SparqlMetrics

open Lexeme

/-- Declarations of a prologue whose labels hold no colon. -/
structure Namespaces.Plain (ns : Namespaces) : Prop extends ns.Legal where
  noColon : ∀ entry ∈ ns.entries, Byte.colon ∉ entry.1

/-- Declarations of any namespaces under labels that are read as they are written, each label once. -/
structure Namespaces.Labelled (ns : Namespaces) : Prop where
  nodup : (ns.entries.map (·.1)).Nodup
  label : ∀ entry ∈ ns.entries, IsPrefixLabel entry.1

namespace Namespaces

variable {ns : Namespaces} {iri : Text}

theorem Plain.labelled (h : ns.Plain) : ns.Labelled where
  nodup := h.nodup
  label entry member := h.label entry member (h.noColon entry member)

theorem mem_of_foldl_longerEntry {entries : List (Text × Text)} {best : Option (Text × Text)}
    {entry : Text × Text} (h : entries.foldl longerEntry best = some entry) :
    entry ∈ entries ∨ best = some entry := by
  induction entries generalizing best with
  | nil => exact .inr h
  | cons first rest ih =>
      rcases ih h with member | same
      · exact .inl (List.mem_cons_of_mem _ member)
      · cases best with
        | none => exact .inl (Option.some.inj same ▸ List.mem_cons_self)
        | some known =>
            simp only [longerEntry] at same
            split at same
            · exact .inl (Option.some.inj same ▸ List.mem_cons_self)
            · exact .inr same

theorem canShorten_of_entryFor? {entry : Text × Text} (h : ns.entryFor? iri = some entry) :
    entry ∈ ns.entries ∧ canShorten iri entry = true := by
  rcases mem_of_foldl_longerEntry h with member | absurdity
  · exact List.mem_filter.mp member
  · cases absurdity

theorem find?_of_nodup {entries : List (Text × Text)} (nodup : (entries.map (·.1)).Nodup)
    {entry : Text × Text} (member : entry ∈ entries) :
    (entries.find? fun other => other.1 == entry.1) = some entry := by
  induction entries with
  | nil => cases member
  | cons first rest ih =>
      rw [List.map_cons, List.nodup_cons] at nodup
      rcases List.mem_cons.mp member with rfl | member
      · simp
      · have other : first.1 ≠ entry.1 := by
          intro same
          exact nodup.1 (same ▸ List.mem_map_of_mem member)
        rw [List.find?_cons_of_neg (by simpa using other)]
        exact ih nodup.2 member

/-- Under declarations with each label once, a label stands for its namespace. -/
theorem find?_of_mem (nodup : (ns.entries.map (·.1)).Nodup) {entry : Text × Text}
    (member : entry ∈ ns.entries) : ns.find? entry.1 = some entry.2 := by
  rw [find?, find?_of_nodup nodup member, Option.map_some]

end Namespaces

/-- A lexeme that is read as an IRI. -/
inductive SpellsIri (ns : Namespaces) : Lexeme → Text → Prop
  | reference {iri : Text} : Iri.hasScheme iri = true → SpellsIri ns (.iri iri) iri
  | name {label localName iri : Text} : ns.expand? label localName = some iri →
      SpellsIri ns (.prefixedName label localName) iri

theorem run_of_isPlainLocalName {name : Text} (h : isPlainLocalName name = true) :
    (∀ b ∈ name, (b.isNameByte || b == Byte.hyphen || b == Byte.dot) = true) ∧
      name.getLast? ≠ some Byte.dot := by
  simp only [isPlainLocalName, Bool.and_eq_true, List.all_eq_true] at h
  obtain ⟨⟨⟨all, _⟩, _⟩, noDot⟩ := h
  refine ⟨fun b member => ?_, by simpa using noDot⟩
  exact Byte.forall_of_digits
    (P := fun b => (b.isAlnum || b == Byte.underscore || b == Byte.hyphen || b == Byte.dot) = true →
      (b.isNameByte || b == Byte.hyphen || b == Byte.dot) = true) (by decide) b
    (all b member)

/-- An IRI that a label can shorten is written as its name. -/
theorem opens_name {ns : Namespaces} (nodup : (ns.entries.map (·.1)).Nodup) {iri rest : Text}
    {entry : Text × Text} (found : ns.entryFor? iri = some entry) (isLabel : IsPrefixLabel entry.1)
    (breaks : Breaks rest) :
    ∃ name, Opens (ns.writeIri iri ++ rest) (.prefixedName entry.1 name) rest ∧
      ns.expand? entry.1 name = some iri := by
  obtain ⟨member, shortens⟩ := Namespaces.canShorten_of_entryFor? found
  simp only [canShorten, Bool.and_eq_true, List.isPrefixOf_iff_prefix] at shortens
  obtain ⟨⟨_, ⟨name, same⟩⟩, isPlain⟩ := shortens
  have dropped : iri.drop entry.2.length = name := by rw [← same, List.drop_left]
  rw [dropped] at isPlain
  obtain ⟨all, noDot⟩ := run_of_isPlainLocalName isPlain
  refine ⟨name, ?_, ?_⟩
  · rw [Namespaces.writeIri, found]
    simp only [dropped, List.append_assoc, List.cons_append]
    exact opens_prefixedName isLabel (localName_run all noDot breaks)
  · rw [Namespaces.expand?, Namespaces.find?_of_mem nodup member, Option.map_some, same]

theorem opens_writeIri {ns : Namespaces} (h : ns.Labelled) {iri rest : Text}
    (absolute : Iri.hasScheme iri = true) (clean : IsCleanIri iri) (parts : Parts rest) :
    ∃ l, Opens (ns.writeIri iri ++ rest) l rest ∧ SpellsIri ns l iri := by
  cases found : ns.entryFor? iri with
  | some entry =>
      have isLabel := h.label entry (Namespaces.canShorten_of_entryFor? found).1
      obtain ⟨name, opens, expanded⟩ := opens_name h.nodup found isLabel parts.breaks
      exact ⟨_, opens, .name expanded⟩
  | none =>
      rw [Namespaces.writeIri, found]
      exact ⟨.iri iri, opens_iri clean, .reference absolute⟩

/-- A lexeme that goes on with the string in front of it. -/
def Lexeme.continuesString : Lexeme → Bool
  | .languageTag _ => true
  | .symbol .doubleCaret => true
  | _ => false

/-- A text that may follow a term. -/
structure EndsTerm (rest : Text) : Prop where
  parts : Parts rest
  noTag : rest.first.continuesString = false

namespace Grammar

open SparqlMetrics.Parser TwoRuns Cursor

section Iris
variable {ns : Namespaces} {iri s rest : Text} {l : Lexeme}

theorem resolvedIri_before (h : SpellsIri ns l iri) (first : s.first = l) :
    resolvedIri ns (before s) = .ok (iri, before s) := by
  have here : (before s).token.lexeme = l := first
  cases h with
  | reference absolute =>
      have resolved := ns.resolve?_of_hasScheme absolute
      simp [resolvedIri, Parser.token, here, resolved, bind, StateT.bind, Except.bind,
        pure_apply]
  | name expanded =>
      simp [resolvedIri, Parser.token, here, expanded, bind, StateT.bind, Except.bind,
        pure_apply]

theorem fares_iriTerm (h : SpellsIri ns l iri) (opens : Opens (s ++ rest) l rest) :
    Fares (iriTerm ns) s True ⟨.iri iri, {}⟩ rest := by
  refine Reads.token (Text.first_of_opens opens) ?_
  refine Reads.peek (resolvedIri_before h (Text.first_of_opens opens)) ?_
  exact (fares_skip opens).bind_pure rfl

/-- An IRI in writing, in front of a text that may follow a token. -/
theorem fares_iriTerm_writeIri (h : ns.Labelled) (absolute : Iri.hasScheme iri = true)
    (clean : IsCleanIri iri) (parts : Parts rest) :
    Fares (iriTerm ns) (ns.writeIri iri) True ⟨.iri iri, {}⟩ rest := by
  obtain ⟨l, opens, spells⟩ := opens_writeIri h absolute clean parts
  exact fares_iriTerm spells opens

end Iris

section Literals
variable {ns : Namespaces} {rest : Text}

theorem fares_stringTail_plain (value : Text) (ends : EndsTerm rest) :
    Fares (stringTail ns value) [] True { value } rest := by
  have noTag := ends.noTag
  cases here : rest.first with
  | languageTag tag =>
      rw [here] at noTag
      cases noTag
  | symbol m =>
      rw [here] at noTag
      cases m with
      | doubleCaret => cases noTag
      | _ => exact Reads.lexeme (s := []) here (reads_nothing rfl)
  | _ => exact Reads.lexeme (s := []) here (reads_nothing rfl)

theorem fares_stringTail_tagged (value : Text) {tag : Text} (h : IsLanguageTag tag)
    (parts : Parts rest) :
    Fares (stringTail ns value) (Byte.atSign :: tag) True { value, language := some tag } rest := by
  have opens := opens_languageTag h parts.breaks
  refine Reads.lexeme (Text.first_of_opens opens) ?_
  exact (fares_skip opens).bind_pure rfl

theorem fares_stringTail_typed (h : ns.Labelled) (value : Text) {datatype : Text}
    (absolute : Iri.hasScheme datatype = true) (clean : IsCleanIri datatype) (parts : Parts rest) :
    Fares (stringTail ns value) (utf8 "^^" ++ ns.writeIri datatype) True
      { value, datatype := some datatype } rest := by
  obtain ⟨l, opens, spells⟩ := opens_writeIri h absolute clean parts
  have marks := opens_doubleCaret (ns.writeIri datatype ++ rest)
  refine Reads.lexeme (l := .symbol .doubleCaret) ?_ ?_
  · rw [List.append_assoc]
    exact Text.first_of_opens marks
  · refine Fares.then (fares_skip marks) ?_
    refine Reads.peek (resolvedIri_before spells (Text.first_of_opens opens)) ?_
    exact (fares_skip opens).bind_pure rfl

/-- No sign is read where none stands. -/
theorem numberSign_before {s : Text} (minus : s.first ≠ .symbol .minus)
    (plus : s.first ≠ .symbol .plus) : numberSign (before s) = .ok ([], before s) := by
  have here : ((before s).token.lexeme == Lexeme.symbol .minus ||
      (before s).token.lexeme == .symbol .plus) = false := by
    rw [Bool.or_eq_false_iff]
    exact ⟨beq_eq_false_iff_ne.mpr minus, beq_eq_false_iff_ne.mpr plus⟩
  simp only [numberSign, lexeme, bind, StateT.bind, Except.bind]
  rw [here]
  rfl

theorem opens_sign {sign : Text} {m : Symbol} (h : sign = m.text) (hm : m = .plus ∨ m = .minus)
    (t : Text) : Opens (sign ++ t) (.symbol m) t := by
  rw [h]
  rcases hm with rfl | rfl
  · exact opens_plain (by decide) t
  · exact opens_plain (by decide) t

theorem fares_numberSign {sign t : Text} {m : Symbol} (h : sign = m.text)
    (hm : m = .plus ∨ m = .minus) (number : t.first.isNumber = true) :
    Fares numberSign sign True sign t := by
  have opens := opens_sign h hm t
  refine Reads.lexeme (Text.first_of_opens opens) ?_
  have isSign : ((Lexeme.symbol m == .symbol .minus) || (Lexeme.symbol m == .symbol .plus)) = true := by
    rcases hm with rfl | rfl <;> rfl
  rw [if_pos isSign]
  refine Reads.followingLexeme (Text.second_of_opens opens) ?_
  rw [if_pos number]
  exact (fares_skip opens).bind_pure (congrArg (fun s => Except.ok (s, before t)) h.symm)

theorem fares_literalTerm_quoted (value : Text) {tail : Text} {l : Literal}
    (avoids : Avoids Byte.quote (tail ++ rest))
    (read : Fares (stringTail ns value) tail True l rest) :
    Fares (literalTerm ns) (quoted value ++ tail) True ⟨.literal l, {}⟩ rest := by
  have opens := @opens_quoted value _ avoids
  rw [← List.append_assoc] at opens
  have first := Text.first_of_opens opens
  refine Reads.position ?_
  refine Reads.peek (numberSign_before (by rw [first]; nofun) (by rw [first]; nofun)) ?_
  refine Reads.lexeme first ?_
  rw [List.append_assoc] at opens
  refine Fares.then (fares_skip opens) ?_
  exact read.bind_pure ((bind_eq_of_ok (position_before rest)).trans rfl)

theorem fares_literalTerm_number {sign digits : Text} {kind : NumberKind} (hsign : IsSign sign)
    (numeral : IsNumeral kind digits) (parts : Parts rest) :
    Fares (literalTerm ns) (sign ++ digits) True
      ⟨.literal
        { value := sign ++ digits, datatype := some (numberDatatype kind), short := true }, {}⟩
      rest := by
  have opens := opens_number numeral parts.breaks
  have first := Text.first_of_opens opens
  have isNumber : (digits ++ rest).first.isNumber = true := by rw [first]; rfl
  have finish : ((position >>= fun stop => pure (⟨.literal
      { value := sign ++ digits, datatype := some (numberDatatype kind), short := true },
        ⟨0, stop⟩⟩ : Term)) : Parser Term) (before rest) = .ok (⟨.literal
      { value := sign ++ digits, datatype := some (numberDatatype kind), short := true }, {}⟩,
        before rest) := (bind_eq_of_ok (position_before rest)).trans rfl
  refine Reads.position ?_
  rcases hsign with rfl | signed
  · refine Reads.peek (numberSign_before ?_ ?_) ?_
    · rw [List.nil_append, first]
      nofun
    · rw [List.nil_append, first]
      nofun
    · refine Reads.lexeme first ?_
      exact (fares_skip opens).bind_pure finish
  · have isSign : ∃ m, sign = Symbol.text m ∧ (m = .plus ∨ m = .minus) := by
      rcases signed with rfl | rfl
      · exact ⟨.plus, by decide, .inl rfl⟩
      · exact ⟨.minus, by decide, .inr rfl⟩
    obtain ⟨m, spelled, hm⟩ := isSign
    refine Fares.then (fares_numberSign spelled hm isNumber) ?_
    refine Reads.lexeme first ?_
    exact (fares_skip opens).bind_pure finish

/-- A truth value is a word that is read as its keyword. -/
theorem opens_truth {value : String} (h : value = "true" ∨ value = "false") (parts : Parts rest) :
    ∃ k, (k = Keyword.TRUE ∧ value = "true" ∨ k = .FALSE ∧ value = "false") ∧
      Opens (utf8 value ++ rest) (.keyword k (utf8 value)) rest := by
  rcases h with rfl | rfl
  · have keyword : ofWord (utf8 "true") = .keyword .TRUE (utf8 "true") := by decide
    exact ⟨.TRUE, .inl ⟨rfl, rfl⟩, keyword ▸ opens_word (by decide) parts.breaks⟩
  · have keyword : ofWord (utf8 "false") = .keyword .FALSE (utf8 "false") := by decide
    exact ⟨.FALSE, .inr ⟨rfl, rfl⟩, keyword ▸ opens_word (by decide) parts.breaks⟩

theorem fares_literalTerm_truth {value : String} (h : value = "true" ∨ value = "false")
    (parts : Parts rest) :
    Fares (literalTerm ns) (utf8 value) True ⟨.literal (booleanLiteral value), {}⟩ rest := by
  obtain ⟨k, same, opens⟩ := opens_truth h parts
  have first := Text.first_of_opens opens
  refine Reads.position ?_
  refine Reads.peek (numberSign_before (by rw [first]; nofun) (by rw [first]; nofun)) ?_
  refine Reads.lexeme first ?_
  have finish := (bind_eq_of_ok (f := fun stop => (pure (⟨.literal (booleanLiteral value),
    ⟨0, stop⟩⟩ : Term) : Parser Term)) (position_before rest)).trans rfl
  rcases same with ⟨rfl, rfl⟩ | ⟨rfl, rfl⟩
  · exact (fares_skip opens).bind_pure finish
  · exact (fares_skip opens).bind_pure finish

/-- A literal of a pattern is read from its written form. -/
theorem fares_literalTerm (hns : ns.Labelled) {signed : Bool} {l : Literal} (h : l.Legal signed)
    (clean : ∀ datatype, l.datatype = some datatype → IsCleanIri datatype)
    (ends : EndsTerm rest) :
    Fares (literalTerm ns) (l.write ns) True ⟨.literal l, {}⟩ rest := by
  have parts := ends.parts
  cases h with
  | plain value =>
      have avoids : Avoids Byte.quote ([] ++ rest) := parts.avoids_quote
      have read := fares_literalTerm_quoted value avoids (@fares_stringTail_plain ns rest value ends)
      rwa [List.append_nil] at read
  | @tagged value tag isTag =>
      exact fares_literalTerm_quoted value (stopsAt_cons (by decide))
        (fares_stringTail_tagged value isTag parts)
  | @typed value datatype absolute =>
      have read := fares_literalTerm_quoted value (stopsAt_cons (by decide))
        (fares_stringTail_typed hns value absolute (clean _ rfl) parts)
      rwa [← List.append_assoc] at read
  | number hsign _ numeral => exact fares_literalTerm_number hsign numeral parts
  | truth => exact fares_literalTerm_truth (.inl rfl) parts
  | falsehood => exact fares_literalTerm_truth (.inr rfl) parts

end Literals

end Grammar

/-- The lexeme that opens a node in writing, and the text behind it. A sign opens a number only where
signed numbers may stand. -/
inductive Node.OpenedBy (ns : Namespaces) (signed : Bool) : Node → Lexeme → Text → Prop
  | var {name rest : Text} : OpenedBy ns signed (.var name) (.variableName name) rest
  | blank {label rest : Text} : OpenedBy ns signed (.blank label) (.blankNodeLabel label) rest
  | iri {iri rest : Text} {l : Lexeme} : SpellsIri ns l iri → OpenedBy ns signed (.iri iri) l rest
  | string {literal : Literal} {value rest : Text} :
      OpenedBy ns signed (.literal literal) (.string value false) rest
  | number {literal : Literal} {kind : NumberKind} {digits rest : Text} :
      OpenedBy ns signed (.literal literal) (.number kind digits) rest
  | truth {literal : Literal} {k : Keyword} {spelled rest : Text} : k = .TRUE ∨ k = .FALSE →
      OpenedBy ns signed (.literal literal) (.keyword k spelled) rest
  | sign {literal : Literal} {m : Symbol} {rest : Text} : m = .plus ∨ m = .minus → signed = true →
      (m = .plus → literal.unsigned?.isSome = true) → rest.first.isNumber = true →
      OpenedBy ns signed (.literal literal) (.symbol m) rest

namespace Grammar

open SparqlMetrics.Parser TwoRuns Cursor

section Terms
variable {ns : Namespaces} {rest : Text}

theorem opens_literal {signed : Bool} {l : Literal} (h : l.Legal signed) (parts : Parts rest) :
    ∃ here behind, Opens (l.write ns ++ rest) here behind ∧
      Node.OpenedBy ns signed (.literal l) here behind := by
  cases h with
  | plain value => exact ⟨_, _, opens_quoted parts.avoids_quote, .string⟩
  | @tagged value tag _ =>
      refine ⟨.string value false, Byte.atSign :: tag ++ rest, ?_, .string⟩
      simp only [Literal.write, Bool.false_eq_true, if_false, List.append_assoc]
      exact opens_quoted (stopsAt_cons (by decide))
  | @typed value datatype _ =>
      refine ⟨.string value false, utf8 "^^" ++ (ns.writeIri datatype ++ rest), ?_, .string⟩
      simp only [Literal.write, Bool.false_eq_true, if_false, List.append_assoc]
      exact opens_quoted (stopsAt_cons (by decide))
  | @number sign digits kind hsign allowed numeral =>
      have opens := opens_number numeral parts.breaks
      have isNumber : (digits ++ rest).first.isNumber = true := by
        rw [Text.first_of_opens opens]
        rfl
      simp only [Literal.write, if_true]
      rcases hsign with rfl | rfl | rfl
      · exact ⟨_, _, opens, .number⟩
      · have spelled : [Byte.plus] = Symbol.plus.text := by decide
        have signed' := eq_true_of_ne_false fun no => List.cons_ne_nil _ _ (allowed no)
        exact ⟨_, _, opens_sign spelled (.inl rfl) _,
          .sign (.inl rfl) signed' (fun _ => rfl) isNumber⟩
      · have spelled : [Byte.hyphen] = Symbol.minus.text := by decide
        have signed' := eq_true_of_ne_false fun no => List.cons_ne_nil _ _ (allowed no)
        exact ⟨_, _, opens_sign spelled (.inr rfl) _, .sign (.inr rfl) signed' nofun isNumber⟩
  | truth =>
      obtain ⟨k, same, opens⟩ := opens_truth (.inl rfl) parts
      exact ⟨_, _, opens, .truth (same.imp And.left And.left)⟩
  | falsehood =>
      obtain ⟨k, same, opens⟩ := opens_truth (.inr rfl) parts
      exact ⟨_, _, opens, .truth (same.imp And.left And.left)⟩

theorem opens_term (hns : ns.Labelled) {signed : Bool} {t : Term} (h : t.node.Legal signed)
    (clean : t.node.Clean) (parts : Parts rest) :
    ∃ here behind, Opens (t.write ns ++ rest) here behind ∧
      Node.OpenedBy ns signed t.node here behind := by
  obtain ⟨node, span⟩ := t
  cases node with
  | iri value =>
      obtain ⟨l, opens, spells⟩ := opens_writeIri hns h clean parts
      exact ⟨l, rest, opens, .iri spells⟩
  | literal l => exact opens_literal h parts
  | blank label => exact ⟨_, rest, opens_blankLabel h parts.breaks, .blank⟩
  | var name => exact ⟨_, rest, opens_variable h parts.stopsAt_isNameByte, .var⟩

abbrev bare (t : Term) : Term := t.rewrite .withoutSpans

theorem bare_eq (node : Node) (span : Span) : bare ⟨node, span⟩ = ⟨node, {}⟩ := by
  rw [bare, Term.rewrite, Node.rewrite_of_iri rfl]
  rfl

theorem fares_varOrTerm (hns : ns.Labelled) {signed : Bool} {t : Term} (h : t.node.Legal signed)
    (clean : t.node.Clean) (ends : EndsTerm rest) :
    Fares (varOrTerm ns) (t.write ns) True (bare t) rest := by
  obtain ⟨here, behind, opens, opened⟩ := opens_term hns h clean ends.parts
  have first := Text.first_of_opens opens
  obtain ⟨node, span⟩ := t
  rw [bare_eq]
  refine Reads.token first ?_
  cases node with
  | iri value =>
      have read := fares_iriTerm_writeIri hns h clean ends.parts
      cases opened with
      | iri spells =>
          cases spells with
          | reference => exact read
          | name => exact read
  | literal l =>
      have read := fares_literalTerm hns h clean ends
      cases opened with
      | string => exact read
      | number => exact read
      | truth hk => rcases hk with rfl | rfl <;> exact read
      | sign hm => rcases hm with rfl | rfl <;> exact read
  | blank label =>
      cases opened
      exact (fares_skip (opens_blankLabel h ends.parts.breaks)).bind_pure rfl
  | var name =>
      cases opened
      exact (fares_skip (opens_variable h ends.parts.stopsAt_isNameByte)).bind_pure rfl

/-- A name of a graph, a service or a described resource. -/
theorem fares_varOrIri (hns : ns.Labelled) {signed : Bool} {t : Term} (h : t.node.Legal signed)
    (clean : t.node.Clean) (named : t.node.isIri = true ∨ t.node.isVar = true)
    (ends : EndsTerm rest) : Fares (varOrIri ns) (t.write ns) True (bare t) rest := by
  have read := fares_varOrTerm hns h clean ends
  obtain ⟨here, behind, opens, opened⟩ := opens_term hns h clean ends.parts
  have first := Text.first_of_opens opens
  obtain ⟨node, span⟩ := t
  refine Reads.lexeme first ?_
  cases node with
  | iri value =>
      have iri := fares_iriTerm_writeIri hns h clean ends.parts
      rw [bare_eq]
      cases opened with
      | iri spells =>
          cases spells with
          | reference => exact iri
          | name => exact iri
  | var name =>
      cases opened
      exact read
  | literal l => simp [Node.isIri, Node.isVar] at named
  | blank label => simp [Node.isIri, Node.isVar] at named

/-- A cell of a table. -/
theorem fares_dataValue (hns : ns.Labelled) {cell : Option Term}
    (h : ∀ t, cell = some t → t.node.Legal true ∧ t.node.Clean ∧ t.node.isResource = true)
    (ends : EndsTerm rest) :
    Fares (dataValue ns) (cellText ns cell) True (cell.map bare) rest := by
  cases cell with
  | none =>
      have opens := opens_keyword .UNDEF ends.parts.breaks
      refine Reads.lexeme (Text.first_of_opens opens) ?_
      exact (fares_skip opens).bind_pure rfl
  | some t =>
      obtain ⟨legal, clean, resource⟩ := h t rfl
      obtain ⟨here, behind, opens, opened⟩ := opens_term hns legal clean ends.parts
      have first := Text.first_of_opens opens
      obtain ⟨node, span⟩ := t
      rw [Option.map_some, bare_eq]
      refine Reads.lexeme first ?_
      cases node with
      | iri value =>
          have read := fares_iriTerm_writeIri hns legal clean ends.parts
          cases opened with
          | iri spells =>
              cases spells with
              | reference => exact read.map
              | name => exact read.map
      | literal l =>
          have read := fares_literalTerm hns legal clean ends
          cases opened with
          | string => exact read.map
          | number => exact read.map
          | truth hk => rcases hk with rfl | rfl <;> exact read.map
          | sign hm => rcases hm with rfl | rfl <;> exact read.map
      | blank label => cases resource
      | var name => cases resource

end Terms

end Grammar

end SparqlMetrics
