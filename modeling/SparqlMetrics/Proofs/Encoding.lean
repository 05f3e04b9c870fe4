import SparqlMetrics.Proofs.Outcome
import SparqlMetrics.Proofs.Token.Encoded

/-!
# Reading keeps UTF-8

Of a valid text whose strings have code point escapes of scalar values only, the texts of the query
that is read are valid, and so is what an error tells, but for one case: the message about an escape
that does not exist quotes the one byte behind the backslash, which may be the first byte of a longer
character.
Main statement: `QueryUnit.parse_encoded`.
-/
namespace SparqlMetrics

open Text

/-- Whether an error quotes one byte of a longer character. -/
def ParseError.QuotesPart (e : ParseError) : Prop :=
  ∃ b : Byte, b.isHigh = true ∧ e.failure = .malformed (.lexical (.badEscape b))

/-- What of an error is valid. -/
structure ParseError.Encoded (e : ParseError) : Prop where
  label : ∀ label, e.failure = .undeclaredPrefix label → label.IsUtf8
  message : e.failure.message.IsUtf8 ↔ ¬ e.QuotesPart

/-! ## Messages -/

theorem isUtf8_constant (text : String) : (utf8 text).IsUtf8 := ⟨text, rfl⟩

theorem isUtf8_badEscape (b : Byte) :
    (LexicalFault.badEscape b).message.IsUtf8 ↔ b.isHigh = false := by
  constructor
  · intro h
    by_contra high
    exact not_isUtf8_singleton (by simpa using high) (h.behind (isUtf8_constant _))
  · exact fun ascii => (isUtf8_constant _).append (isUtf8_singleton ascii)

/-- The message of a fault that quotes no byte outside ASCII. -/
theorem LexicalFault.isUtf8_message {fault : LexicalFault}
    (unexpected : ∀ b, fault = .unexpectedByte b → b.isHigh = false)
    (escape : ∀ b, fault = .badEscape b → b.isHigh = false) : fault.message.IsUtf8 := by
  cases fault with
  | unexpectedByte b =>
      exact (isUtf8_constant _).append ((isUtf8_singleton (by decide)).cons (unexpected b rfl))
  | badEscape b => exact (isUtf8_badEscape b).mpr (escape b rfl)
  | _ => exact isUtf8_constant _

theorem ParseError.not_quotesPart {e : ParseError} (h : e.failure.message.IsUtf8) :
    ¬ e.QuotesPart := by
  rintro ⟨b, high, named⟩
  rw [named] at h
  rw [(isUtf8_badEscape b).mp h] at high
  cases high

/-! ## Outcomes -/

variable {s : Text}

theorem strings_eq_nil {l : Lexeme} (h : l.isTerminal = true) : l.strings = [] := by
  cases l with
  | endOfInput => rfl
  | invalid => rfl
  | _ => cases h

namespace Cursor

variable {c : Cursor}

theorem within_utf8 (valid : s.IsUtf8) (names : s.NamesScalars) :
    (ofStream (TokenStream.ofText s)).Within TextClass.utf8 := by
  have terminal := (at_ofStream s).isTerminal
  exact ⟨TokenStream.keeps_tokens valid names, strings_eq_nil terminal ▸ TextClass.keeps_nil,
    terminal⟩

/-- A fault that a cursor stands at is the answer of a reader. -/
theorem exists_fault (ahead : c.ahead <:+ (TokenStream.ofText s).tokens)
    (last : c.last = (TokenStream.ofText s).last) {fault : LexicalFault}
    (here : c.token.lexeme = .invalid fault) :
    ∃ b rest place, Lexeme.FaultBy b rest ⟨fault, place⟩ := by
  obtain ⟨tokens, last', count⟩ := c
  cases tokens with
  | nil => exact TokenStream.exists_fault ((congrArg Token.lexeme last).symm.trans here)
  | cons t ts =>
      have full := (TokenStream.placed_of_mem s t (ahead.subset List.mem_cons_self)).full
      rw [show t.lexeme = _ from here] at full
      cases full

end Cursor

namespace QueryUnit

theorem encoded_of_parse (valid : s.IsUtf8) (names : s.NamesScalars) {e : ParseError}
    (h : parse s = .error e) : e.Encoded := by
  have within := Cursor.within_utf8 valid names
  obtain ⟨S, c, blames⟩ := Grammar.queryUnit_error within (queryUnit_error_of_parse h)
  have token : TextClass.utf8.Keeps c.token.lexeme.strings :=
    (within.suffix blames.suffix blames.last).token
  refine ⟨fun label named => ?_, ParseError.not_quotesPart, fun whole => ?_⟩
  · cases blames.raises with
    | undeclaredPrefix here _ =>
        obtain rfl := ParseFailure.undeclaredPrefix.inj named
        rw [here] at token
        exact token _ List.mem_cons_self
    | _ => cases named
  · cases blames.raises with
    | lexical here =>
        obtain ⟨b, rest, place, fault⟩ := Cursor.exists_fault blames.suffix blames.last here
        refine LexicalFault.isUtf8_message (fun found same => fault.ascii same) fun found same => ?_
        cases high : found.isHigh with
        | false => rfl
        | true => exact absurd ⟨found, high, same ▸ rfl⟩ whole
    | malformed holds =>
        rw [blames.texts] at holds
        exact holds
    | undeclaredPrefix here _ =>
        rw [here] at token
        exact ((isUtf8_constant _).append (token _ List.mem_cons_self)).append (isUtf8_constant _)
    | missingBase here =>
        rw [here] at token
        exact ((isUtf8_constant _).append (token _ List.mem_cons_self)).append (isUtf8_constant _)

/-- Of a valid text whose strings name scalar values in their escapes, what is read is valid, and so
is what an error tells, unless it quotes one byte of a longer character. -/
theorem parse_encoded (s : Text) (valid : s.IsUtf8) (names : s.NamesScalars) :
    (∀ unit, parse s = .ok unit → TextClass.utf8.Keeps unit.namespaces.strings ∧
      unit.query.Everywhere TextClass.utf8.checks) ∧
    ∀ e, parse s = .error e → e.Encoded := by
  refine ⟨fun unit read => ?_, fun e => encoded_of_parse valid names⟩
  obtain ⟨c, read⟩ := queryUnit_ok_of_parse read
  have accepts := Grammar.queryUnit_ok (Cursor.within_utf8 valid names) read
  exact ⟨accepts.namespaces, accepts.query⟩

/-- A text with characters outside ASCII in names, in a reference and in a string, one of them as an
escape. -/
def accentedText : Text := utf8 "PREFIX ä: <http://ö/> ASK \x7b ?é ä:ü \"ß\\u00E9\"@de \x7d"

/-- A text with a backslash in front of a character outside ASCII. -/
def escapedText : Text := utf8 "ASK \x7b ?s ?p \"\\é\" \x7d"

theorem parse_encoded_accented :
    (∃ unit, parse accentedText = .ok unit ∧ unit.query.Everywhere TextClass.utf8.checks) ∧
      ∃ e, parse escapedText = .error e ∧ e.position = 13 ∧ ¬ e.failure.message.IsUtf8 := by
  obtain ⟨unit, accented⟩ := exists_of_isOk (s := accentedText) (by decide +kernel)
  have escaped : parse escapedText = .error ⟨.malformed (.lexical (.badEscape 0xC3)), 13⟩ :=
    parse_eq_error (by decide +kernel)
  have encoded := (parse_encoded escapedText ⟨_, rfl⟩ (by decide +kernel)).2 _ escaped
  refine ⟨⟨unit, accented, ((parse_encoded accentedText ⟨_, rfl⟩ (by decide +kernel)).1 _
    accented).2⟩, _, escaped, rfl, fun valid => ?_⟩
  exact encoded.message.mp valid ⟨0xC3, by decide, rfl⟩

end QueryUnit

end SparqlMetrics
