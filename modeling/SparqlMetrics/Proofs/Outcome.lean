import SparqlMetrics.Proofs.Grammar.AnswersPrologue
import SparqlMetrics.Proofs.Grammar.LegalQueries
import SparqlMetrics.Proofs.Token.Places

/-!
# What the outcome of reading a text tells

A text is read or it is not. What is read has been read to the end of the input, and no token of the
text is a fault. An error has a message and a place inside the text; the one about an undeclared
name stands at that name, and the one about a missing base at a relative reference that no base
declaration precedes. Main statement: `QueryUnit.parse_outcome`.
-/
namespace SparqlMetrics

/-- The names that the prologue of a text declares. -/
def Text.prologueLabels (s : Text) : List Text :=
  SparqlMetrics.prologueLabels ((TokenStream.ofText s).tokens.map (·.lexeme))

/-- Whether a base declaration, its keyword and its IRI, ends at an offset or before it. -/
def Text.HasBaseBefore (s : Text) (offset : Nat) : Prop :=
  ∃ b i : Token, [b, i] <:+: (TokenStream.ofText s).tokens ∧ b.lexeme.keyword? = some .BASE ∧
    (∃ reference, i.lexeme = .iri reference) ∧ i.stop ≤ offset

/-- What an error tells of its text. -/
structure ParseError.TellsOf (s : Text) (e : ParseError) : Prop where
  message : e.failure.message ≠ []
  inside : e.position ≤ s.length
  undeclared : ∀ label, e.failure = .undeclaredPrefix label →
    label ++ [Byte.colon] <+: s.drop e.position ∧ label ∉ s.prologueLabels
  missing : ∀ reference, e.failure = .missingBase reference →
    Text.angled reference <+: s.drop e.position ∧ Iri.hasScheme reference = false ∧
      ¬ s.HasBaseBefore e.position

/-- What reading a text passes over: all of its tokens, and none of them is a fault. -/
structure QueryUnit.ReadToEnd (s : Text) (unit : QueryUnit) : Prop where
  faultless : ∀ t ∈ (TokenStream.ofText s).toList, ∀ fault, t.lexeme ≠ .invalid fault
  passed : ∃ c, Grammar.queryUnit (Cursor.ofStream (TokenStream.ofText s)) = .ok (unit, c) ∧
    c.ahead = [] ∧ c.token.lexeme = .endOfInput

/-! ## Messages -/

theorem append_ne_nil {s t : Text} (h : s ≠ []) : s ++ t ≠ [] :=
  List.append_ne_nil_of_left_ne_nil h t

theorem LexicalFault.message_ne_nil (fault : LexicalFault) : fault.message ≠ [] := by
  cases fault with
  | unexpectedByte | badEscape => exact append_ne_nil (by decide)
  | _ => decide

theorem CountClause.name_ne_nil (clause : CountClause) : utf8 clause.name ≠ [] := by
  cases clause <;> decide

theorem Malformed.message_ne_nil (cause : Malformed) : cause.message ≠ [] := by
  cases cause with
  | lexical fault => exact fault.message_ne_nil
  | expected => exact append_ne_nil (by decide)
  | iriAfterLabel | trailingToken | unexpectedInGroup | unknownIdentifier | duplicateClause
  | nestingTooDeep => exact append_ne_nil (append_ne_nil (by decide))
  | numberTooLarge clause => exact append_ne_nil clause.name_ne_nil
  | rowWidth =>
      exact append_ne_nil (append_ne_nil (append_ne_nil (append_ne_nil (by decide))))
  | pathInTemplate | collection => decide

theorem ParseFailure.message_ne_nil (failure : ParseFailure) : failure.message ≠ [] := by
  cases failure with
  | malformed cause => exact cause.message_ne_nil
  | undeclaredPrefix | missingBase => exact append_ne_nil (append_ne_nil (by decide))

/-! ## Places -/

namespace Cursor

variable {s : Text} {c : Cursor}

/-- A cursor at a full token splits the tokens of its text. -/
theorem split_tokens (ahead : c.ahead <:+ (TokenStream.ofText s).tokens)
    (last : c.last = (TokenStream.ofText s).last) (full : c.token.lexeme.isTerminal = false) :
    ∃ front, (TokenStream.ofText s).tokens = front ++ c.token :: c.advance.ahead := by
  obtain ⟨front, cut⟩ := ahead
  have terminal := (at_ofStream s).isTerminal
  exact ⟨front, by rw [← ahead_eq (last ▸ terminal) full, cut]⟩

/-- A full token is placed in its text. -/
theorem placed_token (ahead : c.ahead <:+ (TokenStream.ofText s).tokens)
    (last : c.last = (TokenStream.ofText s).last) (full : c.token.lexeme.isTerminal = false) :
    c.token.Placed s := by
  obtain ⟨front, cut⟩ := split_tokens ahead last full
  refine TokenStream.placed_of_mem s _ ?_
  rw [cut]
  exact List.mem_append_right _ List.mem_cons_self

/-- A cursor that is approached has in front of it no token that opens a base declaration, but the
one right in front of it may be one. -/
theorem exists_front (approaches : (ofStream (TokenStream.ofText s)).Approaches c)
    (last : c.last = (TokenStream.ofText s).last) (full : c.token.lexeme.isTerminal = false) :
    ∃ front, (TokenStream.ofText s).tokens = front ++ c.token :: c.advance.ahead ∧
      ∀ t ∈ front.dropLast, t.lexeme.OpensNoBase := by
  obtain ⟨p, passes, stands⟩ := approaches
  obtain ⟨passed, cut, free⟩ := passes.tokens
  have behind := ahead_eq (last ▸ (at_ofStream s).isTerminal) full
  change (TokenStream.ofText s).tokens = passed ++ p.ahead at cut
  rcases stands with rfl | rfl
  · exact ⟨passed, by rw [← behind, cut], fun t member =>
      free t ((List.dropLast_sublist passed).subset member)⟩
  · cases tail : p.ahead with
    | nil =>
        rw [advance, tail] at behind
        cases behind
    | cons x rest =>
        refine ⟨passed ++ [x], ?_, by rwa [List.dropLast_concat]⟩
        rw [← behind, cut, advance, tail, List.append_assoc, List.singleton_append, List.tail_cons]

/-- In front of a reference that is approached no base declaration has ended. -/
theorem not_hasBaseBefore {reference : Text}
    (approaches : (ofStream (TokenStream.ofText s)).Approaches c)
    (ahead : c.ahead <:+ (TokenStream.ofText s).tokens)
    (last : c.last = (TokenStream.ofText s).last) (here : c.token.lexeme = .iri reference) :
    ¬ s.HasBaseBefore c.token.start := by
  have full : c.token.lexeme.isTerminal = false := here ▸ rfl
  have token := placed_token ahead last full
  obtain ⟨front, cut, free⟩ := exists_front approaches last full
  rintro ⟨b, i, adjacent, isBase, ⟨other, isIri⟩, ends⟩
  have sorted := TokenStream.pairwise_stop s
  have bPlaced := TokenStream.placed_of_mem s b (adjacent.subset List.mem_cons_self)
  have iPlaced := TokenStream.placed_of_mem s i (adjacent.subset (by simp))
  have bBefore : b.stop ≤ i.start :=
    (List.pairwise_cons.mp (sorted.sublist adjacent.sublist)).1 i (List.mem_singleton_self i)
  -- what ends in front of the reference is one of the tokens in front of it
  have stands : ∀ t ∈ (TokenStream.ofText s).tokens, t.start < t.stop → t.stop ≤ c.token.start →
      t ∈ front := by
    intro t member nonempty before
    rw [cut] at member sorted
    have later := (List.pairwise_cons.mp (List.pairwise_append.mp sorted).2.1).1
    rcases List.mem_append.mp member with inside | behind
    · exact inside
    rcases List.mem_cons.mp behind with rfl | behind
    · omega
    · have := later t behind
      have := token.nonempty
      omega
  have bFront := stands b (adjacent.subset List.mem_cons_self) bPlaced.nonempty
    (by have := iPlaced.nonempty; omega)
  have iFront := stands i (adjacent.subset (by simp)) iPlaced.nonempty ends
  have nonempty : front ≠ [] := List.ne_nil_of_mem bFront
  rw [cut] at sorted
  have inFront := (List.pairwise_append.mp sorted).1
  rw [← List.dropLast_append_getLast nonempty] at bFront iFront inFront
  obtain ⟨_, _, before⟩ := List.pairwise_append.mp inFront
  rcases List.mem_append.mp bFront with inside | isLast
  · exact free b inside isBase
  obtain rfl := List.mem_singleton.mp isLast
  rcases List.mem_append.mp iFront with inside | isLast
  · have := before i inside _ (List.mem_singleton_self _)
    have := iPlaced.nonempty
    have := bPlaced.nonempty
    omega
  · rw [List.mem_singleton.mp isLast] at bBefore
    have := bPlaced.nonempty
    omega

end Cursor

/-! ## Outcomes -/

theorem Cursor.within_all (s : Text) :
    (Cursor.ofStream (TokenStream.ofText s)).Within TextClass.all :=
  ⟨fun _ _ _ _ => trivial, fun _ _ => trivial, (Cursor.at_ofStream s).isTerminal⟩

namespace QueryUnit

variable {s : Text} {unit : QueryUnit} {e : ParseError}

theorem queryUnit_ok_of_parse (h : parse s = .ok unit) :
    ∃ c, Grammar.queryUnit (Cursor.ofStream (TokenStream.ofText s)) = .ok (unit, c) := by
  unfold parse at h
  split at h
  · next found => exact ⟨_, Except.ok.inj h ▸ found⟩
  · cases h

theorem queryUnit_error_of_parse (h : parse s = .error e) :
    Grammar.queryUnit (Cursor.ofStream (TokenStream.ofText s)) = .error e := by
  unfold parse at h
  split at h
  · cases h
  · next found => exact Except.error.inj h ▸ found

theorem readToEnd_of_parse (h : parse s = .ok unit) : unit.ReadToEnd s := by
  obtain ⟨c, read⟩ := queryUnit_ok_of_parse h
  have accepts := Grammar.queryUnit_ok (Cursor.within_all s) read
  have tokens := TokenStream.placed_of_mem s
  have passed : c.ahead = [] := by
    cases ahead : c.ahead with
    | nil => rfl
    | cons t rest =>
        have full := (tokens t (accepts.suffix.subset (ahead ▸ List.mem_cons_self))).full
        have here : c.token = t := by rw [Cursor.token, ahead, List.headD_cons]
        have ended := accepts.ended
        rw [here] at ended
        rw [ended] at full
        cases full
  have isLast : c.token = (TokenStream.ofText s).last := by
    rw [Cursor.token, passed, List.headD_nil, accepts.last]
    rfl
  refine ⟨fun t member fault isFault => ?_, c, read, passed, accepts.ended⟩
  rcases List.mem_append.mp member with inside | isEnd
  · have full := (tokens t inside).full
    rw [isFault] at full
    cases full
  · rw [List.mem_singleton.mp isEnd, ← isLast, accepts.ended] at isFault
    cases isFault

theorem tellsOf_of_parse (h : parse s = .error e) : e.TellsOf s := by
  obtain ⟨S, c, blames⟩ :=
    Grammar.queryUnit_error (Cursor.within_all s) (queryUnit_error_of_parse h)
  have ahead : c.ahead <:+ (TokenStream.ofText s).tokens := blames.suffix
  have last : c.last = (TokenStream.ofText s).last := blames.last
  refine ⟨e.failure.message_ne_nil, ?_, fun label named => ?_, fun reference named => ?_⟩
  · have place := Cursor.start_le ahead last
    cases blames.raises <;> exact place
  · refine ⟨?_, blames.undeclared label named⟩
    cases blames.raises with
    | undeclaredPrefix here _ =>
        obtain rfl := ParseFailure.undeclaredPrefix.inj named
        exact (Cursor.placed_token ahead last (here ▸ rfl)).label here
    | _ => cases named
  · cases blames.raises with
    | missingBase here relative noBase =>
        obtain rfl := ParseFailure.missingBase.inj named
        exact ⟨(Cursor.placed_token ahead last (here ▸ rfl)).angled here, relative,
          Cursor.not_hasBaseBefore (blames.approaches noBase) ahead last here⟩
    | _ => cases named

/-- A text is read to its end or there is an error, never both, and the error tells of the text. -/
theorem parse_outcome (s : Text) :
    ((∃ unit, parse s = .ok unit) ↔ ¬ ∃ e, parse s = .error e) ∧
      (∀ unit, parse s = .ok unit → unit.ReadToEnd s) ∧
      ∀ e, parse s = .error e → e.TellsOf s := by
  refine ⟨?_, fun _ => readToEnd_of_parse, fun _ => tellsOf_of_parse⟩
  cases parse s <;> simp

theorem parse_eq_error
    (h : (match parse s with | .error raised => decide (raised = e) | .ok _ => false) = true) :
    parse s = .error e := by
  split at h
  · next raised same => rw [same, of_decide_eq_true h]
  · cases h

/-- A name under a label that is not declared. -/
def undeclaredText : Text :=
  utf8 "PREFIX ex: <http://e/> ASK \x7b ?s ex:p other:o \x7d"

/-- A relative reference behind a declaration that sets no base. -/
def relativeText : Text := utf8 "PREFIX ex: <http://e/> ASK \x7b ?s ex:p <o> \x7d"

/-- The same reference behind a base declaration. -/
def basedText : Text := utf8 "BASE <http://e/> ASK \x7b ?s <p> <o> \x7d"

theorem parse_outcome_unresolved :
    (parse undeclaredText = .error ⟨.undeclaredPrefix (utf8 "other"), 37⟩ ∧
      utf8 "other" ++ [Byte.colon] <+: undeclaredText.drop 37 ∧
      utf8 "other" ∉ undeclaredText.prologueLabels) ∧
    (parse relativeText = .error ⟨.missingBase (utf8 "o"), 37⟩ ∧
      Text.angled (utf8 "o") <+: relativeText.drop 37 ∧ ¬ relativeText.HasBaseBefore 37) ∧
    ∃ unit, parse basedText = .ok unit ∧ unit.ReadToEnd basedText := by
  have undeclared : parse undeclaredText = .error ⟨.undeclaredPrefix (utf8 "other"), 37⟩ :=
    parse_eq_error (by decide +kernel)
  have relative : parse relativeText = .error ⟨.missingBase (utf8 "o"), 37⟩ :=
    parse_eq_error (by decide +kernel)
  obtain ⟨unit, based⟩ := exists_of_isOk (s := basedText) (by decide +kernel)
  have missing := ((parse_outcome relativeText).2.2 _ relative).missing _ rfl
  exact ⟨⟨undeclared, ((parse_outcome undeclaredText).2.2 _ undeclared).undeclared _ rfl⟩,
    ⟨relative, missing.1, missing.2.2⟩, unit, based, (parse_outcome basedText).2.1 _ based⟩

end QueryUnit

end SparqlMetrics
