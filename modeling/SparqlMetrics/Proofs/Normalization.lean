import SparqlMetrics.Proofs.Normal.Collapse
import SparqlMetrics.Proofs.Normal.Passes
import SparqlMetrics.Proofs.Normal.Trees
import SparqlMetrics.Proofs.Token.Splice

/-!
# What normalization does to the tokens of a query

The normalized text of a query is on one line. Its tokens are those of the written query without its
declarations, but for the base's where no default namespace is declared, and with one reference for
every prefixed name. A name right behind a minus sign is kept: the scanner of names takes the sign for
a part of the word. Main statement: `QueryUnit.lexemes_normalText`.
-/
namespace SparqlMetrics

open SparqlMetrics.Normal Lexeme Chunk

namespace TokenStream

theorem ofRest_congr {s t : Text} (n : Nat) (same : skipGap false s = skipGap false t) :
    ofRest n s = ofRest n t := by
  have next : (⟨n, s, none⟩ : Scanner).next = (⟨n, t, none⟩ : Scanner).next := by
    simp only [Scanner.next, same]
  conv_lhs => rw [ofRest, ofScanner]
  conv_rhs => rw [ofRest, ofScanner]
  simp only [next]

end TokenStream

namespace Normal

/-- What a token of a written query is in the normalized text: a name that no minus sign stands right
in front of is one and the same reference. -/
def normalLexeme (s : Text) (t : Token) : Lexeme :=
  match t.lexeme with
  | .prefixedName label name =>
    if (s.take t.start).getLast? = some Byte.hyphen then .prefixedName label name
    else .iri (utf8 "r")
  | l => l

/-- The lexemes of a written query, with the reference for its names. -/
def normalLexemes (s : Text) : List Lexeme := (TokenStream.ofText s).tokens.map (normalLexeme s)

/-- Lexemes without the three of each declaration of a namespace in front of them, and then without
the two of the declaration of a base if that is removed as well. -/
def withoutDeclarations (base : Bool) : List Lexeme → List Lexeme
  | .keyword .PREFIX _ :: _ :: _ :: ls => withoutDeclarations base ls
  | .keyword .BASE word :: reference :: ls =>
    if base then ls else .keyword .BASE word :: reference :: ls
  | ls => ls

section Tokens
variable {ns : Namespaces} {cs : List Chunk} {behindMinus : Bool}

theorem lexeme?_rename {word rest : Text} {l : Lexeme} {shuns : Byte → Bool}
    (h : l.WrittenAs ns word shuns) {before : Text} (stop : Nat)
    (follows : Follows behindMinus before.getLast? (word ++ rest)) :
    ((Chunk.token word l shuns).rename (fun _ => true) behindMinus).lexeme? =
      some (normalLexeme (before ++ (word ++ rest)) ⟨l, before.length, stop⟩) := by
  cases l with
  | prefixedName label name =>
      have same := follows.eq_goesOn h
      simp only [rename, normalLexeme, List.take_left]
      by_cases minus : before.getLast? = some Byte.hyphen
      · rw [minus] at same
        rw [same, if_pos minus]
        rfl
      · have noMinus : behindMinus = false :=
          Bool.eq_false_iff.mpr fun behind => minus (follows.minus behind)
        rw [noMinus, if_neg minus]
        rfl
  | _ => rfl

/-- The tokens of a text in chunks that stands behind another text, as they are normalized. -/
theorem map_normalLexeme (h : Laid ns cs) {before s : Text} (whole : s = before ++ texts cs)
    (follows : Follows behindMinus before.getLast? (texts cs)) :
    (TokenStream.ofRest s.length (texts cs)).tokens.map (normalLexeme s) =
      lexemes (renameAll (fun _ => true) behindMinus cs) := by
  induction cs generalizing before behindMinus with
  | nil =>
      rw [TokenStream.tokens_ofRest_eq_nil _ fun l rest opens => by
        exact absurd opens.length_lt (Nat.not_lt_zero _)]
      rfl
  | cons c cs ih =>
      cases c with
      | gap b =>
          have gap : skipGap false (b :: texts cs) = skipGap false (texts cs) := by
            simp [skipGap, h.1]
          obtain ⟨_, _, ends⟩ := plain_of_isSpace h.1
          have behind : Follows false (before ++ [b]).getLast? (texts cs) := by
            rw [List.getLast?_concat]
            exact follows_of_goesOn (show goesOn (some b) = false from ends) _
          show (TokenStream.ofRest s.length (b :: texts cs)).tokens.map _ = _
          rw [TokenStream.ofRest_congr _ gap]
          exact ih h.2 (by simp [whole, Chunk.text]) behind
      | token word l shuns =>
          obtain ⟨written, stop, laid⟩ := h
          rw [texts_cons, Chunk.text] at whole follows ⊢
          have solid : skipGap false (word ++ texts cs) = word ++ texts cs := by
            obtain ⟨b, more, rfl⟩ := List.exists_cons_of_ne_nil written.ne_nil
            obtain ⟨noSpace, noHash⟩ := Bool.or_eq_false_iff.mp (written.solid b (.inl rfl))
            simp [skipGap, noSpace, noHash]
          have start : s.length - (word ++ texts cs).length = before.length := by
            rw [whole, List.length_append]
            omega
          have follows' : Follows (l == .symbol .minus) (before ++ word).getLast? (texts cs) := by
            rw [List.getLast?_append_of_ne_nil _ written.ne_nil]
            exact follows_token written stop
          have behind := ih laid (by simp [whole]) follows'
          have first := lexeme?_rename written (s.length - (texts cs).length) follows
          rw [← whole] at first
          rw [TokenStream.ofRest_of_opens _ (written.opens stop), solid, start, List.map_cons, behind]
          exact (List.filterMap_cons_some first).symm

theorem keywords_renameAll (which : Text → Bool) (behindMinus : Bool) (cs : List Chunk) :
    (lexemes (renameAll which behindMinus cs)).map keyword? = (lexemes cs).map keyword? := by
  induction cs generalizing behindMinus with
  | nil => rfl
  | cons c cs ih =>
      cases c with
      | gap b => exact ih _
      | token word l shuns =>
          have tail : ∀ {word word' : Text} {l l' : Lexeme} {shuns' : Byte → Bool},
              (Chunk.token word l shuns).rename which behindMinus = .token word' l' shuns' →
              l'.keyword? = l.keyword? →
              (lexemes (renameAll which behindMinus (.token word l shuns :: cs))).map keyword? =
                (lexemes (.token word l shuns :: cs)).map keyword? := by
            intro word word' l l' shuns' same keyword
            rw [renameAll, same]
            exact congrArg₂ List.cons keyword (ih _)
          cases l with
          | prefixedName label name =>
              by_cases renamed : (which label && !behindMinus) = true
              · exact tail (if_pos renamed) rfl
              · exact tail (if_neg renamed) rfl
          | _ => exact tail rfl rfl

/-- In front of a query there is nothing to leave out. -/
theorem withoutDeclarations_idle {base : Bool} {ls : List Lexeme}
    (h : ∀ k ∈ [Keyword.PREFIX, .BASE], (ls.map keyword?).head? ≠ some (some k)) :
    withoutDeclarations base ls = ls := by
  unfold withoutDeclarations
  split
  · exact absurd rfl (h .PREFIX (by decide))
  · exact absurd rfl (h .BASE (by decide))
  · rfl

/-- The declarations of namespaces are left out. -/
theorem withoutDeclarations_entries (base : Bool) (entries : List (Text × Text)) (cs : List Chunk) :
    withoutDeclarations base (lexemes (renameAll (fun _ => true) false
      ((entries.map fun entry => Declaration.namespace entry.1 entry.2).flatMap Declaration.chunks ++
        cs))) =
      withoutDeclarations base (lexemes (renameAll (fun _ => true) false cs)) := by
  induction entries with
  | nil => rfl
  | cons entry entries ih => exact ih

/-- What is left of the lexemes of a prologue and of a query behind it. -/
theorem withoutDeclarations_lines (ns : Namespaces) {cs : List Chunk}
    (h : ∀ k ∈ [Keyword.PREFIX, .BASE], ((lexemes cs).map keyword?).head? ≠ some (some k)) :
    withoutDeclarations (removesBase ns) (lexemes (renameAll (fun _ => true) false
      (ns.declarations.flatMap Declaration.chunks ++ cs))) =
      lexemes ((remaining ns).flatMap Declaration.chunks ++ renameAll (fun _ => true) false cs) := by
  have query : ∀ base, withoutDeclarations base (lexemes (renameAll (fun _ => true) false cs)) =
      lexemes (renameAll (fun _ => true) false cs) := fun base =>
    withoutDeclarations_idle (keywords_renameAll (fun _ => true) false cs ▸ h)
  rw [Namespaces.declarations, List.flatMap_append, List.append_assoc, withoutDeclarations_entries,
    remaining, removesBase]
  cases ns.base with
  | none => exact query _
  | some base =>
      cases ns.entries.any fun entry => entry.1.isEmpty with
      | true => rfl
      | false => rfl

end Tokens

end Normal

namespace QueryUnit

variable {s : Text} {unit : QueryUnit}

/-- Whether the declarations of a query and what they apply to can be written as they are read. -/
structure Printable (unit : QueryUnit) : Prop where
  namespaces : unit.namespaces.Plain
  query : unit.query.Everywhere printableChecks

theorem printable_of_parse (h : parse s = .ok unit) (spellable : unit.IsSpellable) :
    unit.Printable where
  namespaces := plain_of_parse h spellable
  query := unit.query.everywhere_together printableChecks_together (legal_of_parse h).query
    spellable.iris

/-- A written query in chunks, behind the lines of its declarations. -/
theorem exists_chunks (h : unit.Printable)
    (noDescription : unit.query.form.isDescribe = false) :
    ∃ cs, unit.write = Declaration.lines unit.namespaces.declarations ++ texts cs ∧
      Laid unit.namespaces cs ∧ Ended cs ∧
      ((lexemes cs).map keyword?).head? = some (some unit.query.form.keyword) := by
  obtain ⟨template, all⟩ := (laidOut_query h.query noDescription 0).exists_chunks
  obtain ⟨same, laid, ended⟩ := all unit.namespaces h.namespaces
  generalize template.map (under unit.namespaces) = cs at same laid ended
  refine ⟨cs, by rw [write, Namespaces.write_eq_lines, same], laid, ended, ?_⟩
  have first : (texts cs).first.keyword? = some unit.query.form.keyword := by
    rw [same, Grammar.text_writeQuery, Grammar.first_form]
    rfl
  have read := lexemes_texts laid
  cases found : lexemes cs with
  | nil => simp [Text.first, Cursor.before, Cursor.token, read, found, keyword?] at first
  | cons l ls =>
      have here : (texts cs).first = l := by
        simp [Text.first, Cursor.before, Cursor.token, read, found]
      rw [here] at first
      exact congrArg some first

section Chunks
variable {cs : List Chunk}

/-- The tokens of a written query in chunks, as they are normalized. -/
theorem normalLexemes_write (plain : unit.namespaces.Plain) (laid : Laid unit.namespaces cs)
    (written : unit.write = Declaration.lines unit.namespaces.declarations ++ texts cs) :
    (TokenStream.ofText unit.write).last.lexeme = .endOfInput ∧
      normalLexemes unit.write = lexemes (renameAll (fun _ => true) false
        (unit.namespaces.declarations.flatMap Declaration.chunks ++ cs)) := by
  have all : ∀ d ∈ unit.namespaces.declarations, d ∈ unit.namespaces.declarations := fun _ => id
  have lines := Declaration.laid_lines plain all laid
  rw [← Declaration.texts_lines, ← texts_append] at written
  constructor
  · rw [written]
    exact congrArg Prod.snd (lexemes_texts lines)
  · have start : Follows false ([] : Text).getLast? (texts
        (unit.namespaces.declarations.flatMap Declaration.chunks ++ cs)) := follows_of_goesOn rfl _
    have mapped := map_normalLexeme lines written start
    rwa [← written] at mapped

/-- Where the passes take no more than declarations, the normalized text is on one line and is read
as the chunks that are left. -/
theorem lexemes_of_passes (plain : unit.namespaces.Plain) (laid : Laid unit.namespaces cs)
    (passed : withoutPrefixes unit.namespaces unit.write =
      Declaration.lines (remaining unit.namespaces) ++ texts (renameAll (fun _ => true) false cs)) :
    Byte.newline ∉ unit.normalText ∧ (TokenStream.ofText unit.normalText).lexemes =
      (lexemes ((remaining unit.namespaces).flatMap Declaration.chunks ++
        renameAll (fun _ => true) false cs), .endOfInput) := by
  have known : ∀ d ∈ remaining unit.namespaces, d ∈ unit.namespaces.declarations := fun d left =>
    List.mem_of_mem_filter (filter_declarations unit.namespaces ▸ left)
  have renamed : Laid unit.namespaces (renameAll (fun _ => true) false cs) := laid_renameAll laid
  obtain ⟨ds, laid', same, kept, oneLine⟩ :=
    exists_collapseLines (Declaration.laid_lines plain known renamed)
  have normal : texts ds = unit.normalText := by
    rw [same, normalText, passed, texts_append, Declaration.texts_lines]
  exact ⟨normal ▸ oneLine, by rw [← normal, lexemes_texts laid', kept]⟩

end Chunks

/-- The normalized text of a query is on one line and is read as the tokens of the written query:
without the declarations of namespaces, and without that of the base if the default namespace is
declared, with one reference for every name that is not right behind a minus sign, and else as they
are. -/
theorem lexemes_normalText (h : parse s = .ok unit) (spellable : unit.IsSpellable)
    (noDescription : unit.query.form.isDescribe = false) :
    Byte.newline ∉ unit.normalText ∧
      (TokenStream.ofText unit.write).last.lexeme = .endOfInput ∧
      (TokenStream.ofText unit.normalText).lexemes =
        (withoutDeclarations (removesBase unit.namespaces) (normalLexemes unit.write),
          .endOfInput) := by
  have plain := plain_of_parse h spellable
  obtain ⟨cs, written, laid, ended, first⟩ :=
    exists_chunks (printable_of_parse h spellable) noDescription
  obtain ⟨last, tokens⟩ := normalLexemes_write plain laid written
  obtain ⟨oneLine, lexemes⟩ := lexemes_of_passes plain laid
    (written ▸ withoutPrefixes_lines plain laid ended)
  have opens : ∀ k ∈ [Keyword.PREFIX, .BASE],
      ((Chunk.lexemes cs).map keyword?).head? ≠ some (some k) := by
    rw [first]
    cases unit.query.form <;> simp [Form.keyword]
  exact ⟨oneLine, last, by rw [lexemes, tokens, withoutDeclarations_lines _ opens]⟩

/-- A test with a base and a default namespace, with a name in a string and one behind a minus sign. -/
def negated : Text :=
  utf8 "PREFIX a: <u:>PREFIX : <v:>BASE <w:> ASK\x7b:s ?p \"a:b\" FILTER(-a:f(?p))\x7d"

/-- The query that is read from the test. -/
def negatedUnit : QueryUnit where
  namespaces := ⟨[(utf8 "a", utf8 "u:"), ([], utf8 "v:")], some (utf8 "w:")⟩
  query :=
    { form := .ask
      resultVariables := [utf8 "p"]
      dataset := []
      root := ⟨.group, [
        .triple ⟨⟨.iri (utf8 "v:s"), ⟨41, 43⟩⟩, ⟨.var (utf8 "p"), ⟨44, 46⟩⟩,
          ⟨.literal { value := utf8 "a:b" }, ⟨47, 53⟩⟩, ⟨41, 53⟩⟩,
        .filter (.unary (utf8 "-") [.call (.iri ⟨.iri (utf8 "u:f"), ⟨61, 64⟩⟩) false
          [.term ⟨.var (utf8 "p"), ⟨65, 67⟩⟩ ⟨65, 67⟩] ⟨61, 68⟩] ⟨60, 68⟩) ⟨53, 69⟩],
        [], none, ⟨40, 70⟩⟩
      groupBy := []
      having := []
      orderBy := []
      limit := none
      offset := none
      values := none
      span := ⟨0, 70⟩ }

theorem parse_negated : parse negated = .ok negatedUnit := by
  set_option maxRecDepth 100000 in with_unfolding_all rfl

theorem isSpellable_negatedUnit : negatedUnit.IsSpellable := by
  have clean : IsCleanIri (utf8 "v:s") ∧ IsCleanIri (utf8 "u:f") := by decide
  refine ⟨by decide, Query.everywhere_iff.mpr ?_⟩
  simp [negatedUnit, cleanChecks, Query.Clean, Element.Clean, Node.Clean, Triple.Everywhere,
    Callee.Everywhere, GroupKind.Everywhere, tableEverywhere, clean]

/-- Of the names in the test only the one behind the minus sign is kept. -/
theorem lexemes_normalText_negated : ∃ unit, parse negated = .ok unit ∧
    Byte.newline ∉ unit.normalText ∧ (TokenStream.ofText unit.normalText).lexemes =
      ([.keyword .ASK (utf8 "ASK"), .keyword .WHERE (utf8 "WHERE"), .symbol .lbrace,
        .iri (utf8 "r"), .variableName (utf8 "p"), .string (utf8 "a:b") false, .symbol .dot,
        .keyword .FILTER (utf8 "FILTER"), .symbol .lparen, .symbol .minus,
        .prefixedName (utf8 "a") (utf8 "f"), .symbol .lparen, .variableName (utf8 "p"),
        .symbol .rparen, .symbol .rparen, .symbol .rbrace], .endOfInput) := by
  obtain ⟨oneLine, _, lexemes⟩ :=
    lexemes_normalText parse_negated isSpellable_negatedUnit rfl
  exact ⟨_, parse_negated, oneLine, lexemes.trans (by decide +kernel)⟩

end QueryUnit

end SparqlMetrics
