import SparqlMetrics.Proofs.Token.Readers
import SparqlMetrics.Proofs.Token.Splice

/-!
# Where tokens stand

Every token before the last one is read at its own offset, takes at least a byte and ends where the
next one may begin; the last one stands inside the text or at its end, and a fault there is one that
a reader has stopped with. Main statements:
`TokenStream.placed_of_mem`, `TokenStream.pairwise_stop`, `TokenStream.exists_fault`.
-/
namespace SparqlMetrics

open Lexeme

/-- Whether a token is read where its offsets say it stands in a text. -/
structure Token.Placed (s : Text) (t : Token) : Prop where
  read : Lexeme.read (s.drop t.start) = .ok (t.lexeme, s.drop t.stop)
  full : t.lexeme.isTerminal = false
  nonempty : t.start < t.stop
  inside : t.stop ≤ s.length

namespace Token.Placed

variable {s : Text} {t : Token}

/-- A name stands with its label and the colon in front of its local part. -/
theorem label (h : t.Placed s) {label localName : Text}
    (same : t.lexeme = .prefixedName label localName) :
    label ++ [Byte.colon] <+: s.drop t.start := by
  obtain ⟨tail, cut, _⟩ := split_of_read (same ▸ h.read)
  exact ⟨tail, by rw [cut, List.append_assoc, List.singleton_append]⟩

/-- A reference stands between its brackets. -/
theorem angled (h : t.Placed s) {reference : Text} (same : t.lexeme = .iri reference) :
    Text.angled reference <+: s.drop t.start :=
  ⟨_, (angled_of_read (same ▸ h.read)).symm⟩

/-- A mark stands as it is spelled. -/
theorem mark (h : t.Placed s) {m : Symbol} (same : t.lexeme = .symbol m) :
    m.text <+: s.drop t.start :=
  ⟨_, (text_of_read (same ▸ h.read)).symm⟩

end Token.Placed

namespace TokenStream

variable {whole s : Text}

theorem placed_ofRest (suffix : s <:+ whole) :
    ∀ t ∈ (ofRest whole.length s).tokens, t.Placed whole := by
  induction s using induction_opens with
  | stop s none =>
      rw [tokens_ofRest_eq_nil _ none]
      exact nofun
  | token s l rest opens ih =>
      obtain ⟨gap, word, cut, _, ahead, _⟩ := opens.exists_word
      have toAhead : skipGap false s <:+ whole :=
        (ahead ▸ cut ▸ List.suffix_append gap _).trans suffix
      have toRest : rest <:+ whole := (ahead ▸ List.suffix_append word rest).trans toAhead
      have word := opens.length_lt
      have gapAhead := toAhead.length_le
      rw [ofRest_of_opens _ opens]
      refine List.forall_mem_cons.mpr ⟨⟨?_, opens.2, ?_, ?_⟩, ih toRest⟩
      · show Lexeme.read (whole.drop (whole.length - (skipGap false s).length)) =
          .ok (l, whole.drop (whole.length - rest.length))
        rw [← List.suffix_iff_eq_drop.mp toAhead, ← List.suffix_iff_eq_drop.mp toRest]
        exact opens.1
      · show whole.length - (skipGap false s).length < whole.length - rest.length
        omega
      · exact Nat.sub_le _ _

theorem placed_of_mem (s : Text) : ∀ t ∈ (ofText s).tokens, t.Placed s :=
  placed_ofRest (List.suffix_refl s)

/-- Each token ends before those behind it begin. -/
theorem pairwise_stop (s : Text) : (ofText s).tokens.Pairwise fun t u => t.stop ≤ u.start := by
  have sorted : ∀ n, (ofRest n s).tokens.Pairwise fun t u => t.stop ≤ u.start := by
    intro n
    induction s using induction_opens with
    | stop s none =>
        rw [tokens_ofRest_eq_nil n none]
        exact .nil
    | token s l rest opens ih =>
        rw [ofRest_of_opens n opens, List.pairwise_cons]
        exact ⟨fun u member => start_le_of_mem_ofRest member, ih⟩
  exact sorted s.length

/-- Where no token is ahead, the last token is the end of the text or a fault of the reader there. -/
theorem last_cases_of_none (n : Nat) (unopened : ∀ l rest, ¬ Opens s l rest) :
    skipGap false s = [] ∧ (ofRest n s).last = ⟨.endOfInput, n, n⟩ ∨
      ∃ fault, Lexeme.read (skipGap false s) = .error fault ∧ (ofRest n s).last =
        ⟨.invalid fault.cause, n - fault.ahead.length, n - fault.ahead.length⟩ := by
  cases found : Lexeme.read (skipGap false s) with
  | error fault =>
      have here : (⟨n, s, .none⟩ : Scanner).next.1 =
          ⟨.invalid fault.cause, n - fault.ahead.length, n - fault.ahead.length⟩ := by
        simp only [Scanner.next, found]
      refine .inr ⟨fault, rfl, ?_⟩
      rw [ofRest, ofScanner, dif_pos (by rw [here]; rfl), here]
  | ok pair =>
      cases opened : skipGap false s with
      | nil =>
          have here : (⟨n, s, .none⟩ : Scanner).next.1 = ⟨.endOfInput, n, n⟩ := by
            simp [Scanner.next, opened, Lexeme.read]
          refine .inl ⟨rfl, ?_⟩
          rw [ofRest, ofScanner, dif_pos (by rw [here]; rfl), here]
      | cons b rest =>
          have full := (readBy_of_readFrom (opened ▸ found)).full
          exact absurd ⟨found, full⟩ (unopened pair.1 pair.2)

/-- The last token is the end of the text, or a fault that a reader has stopped with. -/
theorem last_cases (s : Text) : (ofText s).last = ⟨.endOfInput, s.length, s.length⟩ ∨
    ∃ ahead fault, ahead <:+ s ∧ Lexeme.read (skipGap false ahead) = .error fault ∧
      (ofText s).last = ⟨.invalid fault.cause, s.length - fault.ahead.length,
        s.length - fault.ahead.length⟩ := by
  have cases : ∀ n, (ofRest n s).last = ⟨.endOfInput, n, n⟩ ∨
      ∃ ahead fault, ahead <:+ s ∧ Lexeme.read (skipGap false ahead) = .error fault ∧
        (ofRest n s).last =
          ⟨.invalid fault.cause, n - fault.ahead.length, n - fault.ahead.length⟩ := by
    intro n
    induction s using induction_opens with
    | stop s unopened =>
        obtain ⟨_, last⟩ | ⟨fault, found, last⟩ := last_cases_of_none n unopened
        · exact .inl last
        · exact .inr ⟨s, fault, List.suffix_refl s, found, last⟩
    | token s l rest opens ih =>
        obtain ⟨gap, word, cut, _⟩ := opens.exists_word
        have inside : rest <:+ s := ⟨gap ++ word, by rw [List.append_assoc, ← cut]⟩
        rw [ofRest_of_opens n opens]
        obtain last | ⟨ahead, fault, suffix, found, last⟩ := ih
        · exact .inl last
        · exact .inr ⟨ahead, fault, suffix.trans inside, found, last⟩
  exact cases s.length

/-- The last token stands inside its text or at its end. -/
theorem start_last_le (s : Text) : (ofText s).last.start ≤ s.length := by
  obtain last | ⟨_, _, _, _, last⟩ := last_cases s
  · exact Nat.le_of_eq (congrArg Token.start last)
  · rw [last]
    exact Nat.sub_le _ _

/-- A fault at the end of a stream is the answer of a reader. -/
theorem exists_fault {s : Text} {cause : LexicalFault}
    (h : (ofText s).last.lexeme = .invalid cause) :
    ∃ b rest place, FaultBy b rest ⟨cause, place⟩ := by
  obtain last | ⟨ahead, fault, _, found, last⟩ := last_cases s
  · rw [last] at h
    cases h
  · rw [last] at h
    obtain rfl := Lexeme.invalid.inj h
    cases opened : skipGap false ahead with
    | nil => rw [opened] at found; cases found
    | cons b rest =>
        rw [opened] at found
        exact ⟨b, rest, fault.ahead, faultBy_of_readFrom found⟩

end TokenStream

namespace Cursor

variable {c : Cursor}

/-- A full token stands in front of those behind it. -/
theorem ahead_eq (last : c.last.lexeme.isTerminal = true)
    (full : c.token.lexeme.isTerminal = false) : c.ahead = c.token :: c.advance.ahead := by
  obtain ⟨ahead, last', count⟩ := c
  cases ahead with
  | nil =>
      have same : last'.lexeme.isTerminal = false := full
      rw [show last'.lexeme.isTerminal = true from last] at same
      cases same
  | cons t ts => rfl

/-- The token at a cursor stands inside the text of its stream. -/
theorem start_le {s : Text} (ahead : c.ahead <:+ (TokenStream.ofText s).tokens)
    (last : c.last = (TokenStream.ofText s).last) : c.token.start ≤ s.length := by
  obtain ⟨tokens, last', count⟩ := c
  cases tokens with
  | nil =>
      have same : last'.start = (TokenStream.ofText s).last.start := congrArg Token.start last
      exact Nat.le_trans (Nat.le_of_eq same) (TokenStream.start_last_le s)
  | cons t ts =>
      have placed := TokenStream.placed_of_mem s t (ahead.subset List.mem_cons_self)
      exact Nat.le_trans (Nat.le_of_lt placed.nonempty) placed.inside

end Cursor

end SparqlMetrics
