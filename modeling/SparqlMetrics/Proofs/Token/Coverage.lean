import SparqlMetrics.Proofs.Token.Faults
import SparqlMetrics.Proofs.Token.Gaps

/-!
# What stands between tokens

A scanner that is asked again and again gives the tokens of its text in order, then the terminal one,
and that one from then on. In front of each token there are white space and comments and nothing
else, and nothing else is behind the last one where the text ends there; so every other byte of a
text that is read to its end belongs to a token. Main statements: `TokenStream.covers_ofRest`, what
the tokens from a place on leave; `Scanner.token_ofScanner`, what the calls of a scanner give;
`Scanner.calls_cover`.
-/
namespace SparqlMetrics

open Lexeme

/-- White space and comments at the end of a text, where the last comment may be without a line end. -/
inductive IsLastGap : Text → Prop
  | nil : IsLastGap []
  | white {b : Byte} {gap : Text} : b.isSpace = true → IsLastGap gap → IsLastGap (b :: gap)
  | comment {body gap : Text} : Byte.newline ∉ body → IsLastGap gap →
      IsLastGap (Byte.hash :: (body ++ Byte.newline :: gap))
  | unended {body : Text} : Byte.newline ∉ body → IsLastGap (Byte.hash :: body)

section Gaps

variable {b : Byte} {s rest : Text} {inComment : Bool}

theorem newline_not_mem_cons {body : Text} (other : b ≠ Byte.newline) (free : Byte.newline ∉ body) :
    Byte.newline ∉ b :: body := by
  simpa using ⟨Ne.symm other, free⟩

/-- A comment may be longer by a byte that does not end it. -/
theorem IsGap.lengthen (other : b ≠ Byte.newline) (h : IsGap (Byte.hash :: s)) :
    IsGap (Byte.hash :: b :: s) := by
  cases h with
  | white space _ => cases space
  | comment free behind => exact .comment (newline_not_mem_cons other free) behind

theorem IsLastGap.lengthen (other : b ≠ Byte.newline) (h : IsLastGap (Byte.hash :: s)) :
    IsLastGap (Byte.hash :: b :: s) := by
  cases h with
  | white space _ => cases space
  | comment free behind => exact .comment (newline_not_mem_cons other free) behind
  | unended free => exact .unended (newline_not_mem_cons other free)

/-- What opened the comment that a scanner of gaps is in. -/
def Lexeme.commentSign (inComment : Bool) : Text := if inComment then [Byte.hash] else []

/-- What is passed over in front of a byte is a gap, with the sign of the comment that the scanner
was in. -/
theorem Lexeme.exists_isGap (ahead : skipGap inComment s = b :: rest) :
    ∃ gap, s = gap ++ b :: rest ∧ IsGap (commentSign inComment ++ gap) := by
  induction s generalizing inComment with
  | nil => cases ahead
  | cons c s ih =>
      cases inComment with
      | true =>
          obtain ⟨gap, rfl, isGap⟩ := ih ahead
          refine ⟨c :: gap, rfl, ?_⟩
          by_cases newline : c = Byte.newline
          · subst newline
            exact .comment List.not_mem_nil isGap
          · rw [bne_iff_ne.mpr newline] at isGap
            exact isGap.lengthen newline
      | false =>
          rw [skipGap, if_neg Bool.false_ne_true] at ahead
          split at ahead
          · next space =>
            obtain ⟨gap, rfl, isGap⟩ := ih ahead
            exact ⟨c :: gap, rfl, .white space isGap⟩
          split at ahead
          · next hash =>
            obtain ⟨gap, rfl, isGap⟩ := ih ahead
            obtain rfl := beq_iff_eq.mp hash
            exact ⟨Byte.hash :: gap, rfl, isGap⟩
          · exact ⟨[], ahead, .nil⟩

/-- What is passed over up to the end of a text is a gap there. -/
theorem Lexeme.isLastGap_of_skipGap (ended : skipGap inComment s = []) :
    IsLastGap (commentSign inComment ++ s) := by
  induction s generalizing inComment with
  | nil =>
      cases inComment with
      | true => exact .unended nofun
      | false => exact .nil
  | cons c s ih =>
      cases inComment with
      | true =>
          have isGap := ih ended
          by_cases newline : c = Byte.newline
          · subst newline
            exact .comment List.not_mem_nil isGap
          · rw [bne_iff_ne.mpr newline] at isGap
            exact isGap.lengthen newline
      | false =>
          rw [skipGap, if_neg Bool.false_ne_true] at ended
          split at ended
          · next space => exact .white space (ih ended)
          split at ended
          · next hash =>
            obtain rfl := beq_iff_eq.mp hash
            exact ih ended
          · cases ended

end Gaps

/-- The bytes of a text from one offset to another. -/
def Text.between (s : Text) (start stop : Nat) : Text := (s.drop start).take (stop - start)

namespace TokenStream

variable {whole s : Text}

/-- Tokens of a text from an offset on, and the terminal one behind them. In front of each token there
is a gap, and each takes at least a byte. The terminal one is the end of the text, with a gap in front
of it, or a fault that is reported at no place in front of the offset. -/
inductive Covers (s : Text) : Nat → List Token → Token → Prop
  | ended {offset : Nat} : offset ≤ s.length → IsLastGap (s.drop offset) →
      Covers s offset [] ⟨.endOfInput, s.length, s.length⟩
  | failed {offset position : Nat} {cause : LexicalFault} : offset ≤ position →
      position ≤ s.length → Covers s offset [] ⟨.invalid cause, position, position⟩
  | token {offset : Nat} {t last : Token} {ts : List Token} : t.lexeme.isTerminal = false →
      offset ≤ t.start → IsGap (s.between offset t.start) → t.start < t.stop →
      t.stop ≤ s.length → Covers s t.stop ts last → Covers s offset (t :: ts) last

/-- What stands in front of a token that is read is a gap. -/
theorem isGap_between {b : Byte} {rest : Text} (suffix : s <:+ whole)
    (ahead : skipGap false s = b :: rest) :
    IsGap (whole.between (whole.length - s.length) (whole.length - (skipGap false s).length)) := by
  obtain ⟨front, rfl⟩ := suffix
  obtain ⟨gap, cut, isGap⟩ := exists_isGap ahead
  have start : (front ++ s).length - s.length = front.length := by simp
  have length : (front ++ s).length - (skipGap false s).length - front.length = gap.length := by
    have size := congrArg List.length cut
    rw [List.length_append] at size
    rw [ahead, List.length_append]
    omega
  rw [Text.between, start, length, List.drop_left, cut, List.take_left]
  exact isGap

/-- The tokens of what is left of a text cover it. -/
theorem covers_ofRest (suffix : s <:+ whole) :
    Covers whole (whole.length - s.length) (ofRest whole.length s).tokens
      (ofRest whole.length s).last := by
  induction s using induction_opens with
  | stop s unopened =>
      rw [tokens_ofRest_eq_nil _ unopened]
      obtain ⟨ended, last⟩ | ⟨fault, found, last⟩ := last_cases_of_none whole.length unopened
      · rw [last]
        refine .ended (Nat.sub_le _ _) ?_
        rw [← List.suffix_iff_eq_drop.mp suffix]
        exact isLastGap_of_skipGap ended
      · obtain ⟨front, cut, _⟩ := clear_of_read (List.suffix_refl s) found
        have inside := congrArg List.length cut
        rw [List.length_append] at inside
        rw [last]
        exact .failed (by omega) (Nat.sub_le _ _)
  | token s l rest opens ih =>
      obtain ⟨gap, word, cut, nonempty, ahead, _⟩ := opens.exists_word
      obtain ⟨b, more, first⟩ : ∃ b more, skipGap false s = b :: more :=
        List.exists_cons_of_ne_nil (by simp [ahead, nonempty])
      have toAhead : skipGap false s <:+ whole :=
        (ahead ▸ cut ▸ List.suffix_append gap _).trans suffix
      have toRest : rest <:+ whole := (ahead ▸ List.suffix_append word rest).trans toAhead
      have inGap := length_skipGap_le false s
      have inWord := opens.length_lt
      have inText := toAhead.length_le
      rw [ofRest_of_opens _ opens]
      refine .token opens.2 ?_ (isGap_between suffix first) ?_ (Nat.sub_le _ _) (ih toRest)
      · show whole.length - s.length ≤ whole.length - (skipGap false s).length
        omega
      · show whole.length - (skipGap false s).length < whole.length - rest.length
        omega

/-- A token takes at least a byte, so there are no more tokens than bytes. -/
theorem length_tokens_le (n : Nat) (s : Text) : (ofRest n s).tokens.length ≤ s.length := by
  induction s using induction_opens with
  | stop s none =>
      rw [tokens_ofRest_eq_nil n none]
      exact Nat.zero_le _
  | token s l rest opens ih =>
      have inGap := length_skipGap_le false s
      have inWord := opens.length_lt
      rw [ofRest_of_opens n opens, List.length_cons]
      omega

end TokenStream

namespace Scanner

variable {scanner : Scanner}

/-- The scanner behind a number of calls. -/
def after (scanner : Scanner) : Nat → Scanner
  | 0 => scanner
  | n + 1 => scanner.next.2.after n

/-- The token that a call gives; the first call has the number zero. -/
def token (scanner : Scanner) (n : Nat) : Token := (scanner.after n).next.1

/-- Behind a terminal token a scanner stays as it is. -/
theorem next_next_of_isTerminal (h : scanner.next.1.lexeme.isTerminal = true) :
    scanner.next.2.next = scanner.next := by
  cases fault : scanner.fault with
  | some token => simp [next, fault]
  | none =>
      cases ahead : Lexeme.skipGap false scanner.ahead with
      | nil => simp [next, fault, ahead, Lexeme.read, Lexeme.skipGap]
      | cons b rest =>
          cases found : Lexeme.readFrom b rest with
          | error place => simp [next, fault, ahead, Lexeme.read, found]
          | ok pair =>
              have full := (readBy_of_readFrom found).full
              simp [next, fault, ahead, Lexeme.read, found, full] at h

/-- A terminal token is given again by every further call. -/
theorem token_of_isTerminal (h : scanner.next.1.lexeme.isTerminal = true) (n : Nat) :
    scanner.token n = scanner.next.1 := by
  induction n generalizing scanner with
  | zero => rfl
  | succ n ih =>
      have still := next_next_of_isTerminal h
      have again : scanner.next.2.token n = scanner.next.2.next.1 := ih (by rw [still, h])
      rw [still] at again
      exact again

/-- The calls of a scanner give the tokens of its stream, and then always the last one. -/
theorem token_ofScanner (scanner : { s : Scanner // s.Sound }) (n : Nat) :
    scanner.val.token n = (TokenStream.ofScanner scanner).tokens.getD n
      (TokenStream.ofScanner scanner).last := by
  induction scanner using TokenStream.ofScanner.induct generalizing n with
  | case1 scanner step terminal =>
      rw [TokenStream.ofScanner, dif_pos terminal]
      exact token_of_isTerminal terminal n
  | case2 scanner step full ih =>
      rw [TokenStream.ofScanner, dif_neg full]
      cases n with
      | zero => rfl
      | succ n => exact ih n

/-- The calls of a scanner give the tokens of its text, at most as many as there are bytes, and from
then on the terminal one. The tokens stand in order and do not overlap, and with the terminal one they
cover the text from its beginning. -/
theorem calls_cover (s : Text) :
    let stream := TokenStream.ofText s
    stream.tokens.length ≤ s.length ∧
    (∀ n, (ofText s).token n = stream.tokens.getD n stream.last) ∧
    (stream.tokens.Pairwise fun t u => t.stop ≤ u.start) ∧
    TokenStream.Covers s 0 stream.tokens stream.last := by
  have covers := TokenStream.covers_ofRest (List.suffix_refl s)
  rw [Nat.sub_self] at covers
  exact ⟨TokenStream.length_tokens_le s.length s, token_ofScanner ⟨ofText s, sound_ofText s⟩,
    TokenStream.pairwise_stop s, covers⟩

/-- The comment in front of the first token and the space behind it are gaps; the string that does not
end is a fault at its quote, however often the scanner is asked. -/
example : let calls := (ofText (utf8 "# '\n?x 'y")).token
    calls 0 = ⟨.variableName [0x78], 4, 6⟩ ∧ calls 1 = ⟨.invalid .unterminatedString, 7, 7⟩ ∧
      calls 9 = calls 1 := by
  decide

end Scanner

end SparqlMetrics
