import SparqlMetrics.Proofs.Grammar.Tracks
import SparqlMetrics.Proofs.Token.Opens

/-!
# Cursors in front of texts

The lexemes of a text do not depend on where it stands in a longer one, so a cursor that has passed
over the tokens of a first part stands in front of the lexemes of the rest. `Cursor.At` is that
relation of cursors and texts; it says nothing about the offsets of the tokens.
-/
namespace SparqlMetrics

open Lexeme

namespace TokenStream

/-- The lexemes of a stream: those before the terminal one, and the terminal one. -/
def lexemes (stream : TokenStream) : List Lexeme × Lexeme :=
  (stream.tokens.map (·.lexeme), stream.last.lexeme)

theorem lexemes_ofScanner_of_terminal {scanner : { s : Scanner // s.Sound }}
    (h : scanner.val.next.1.lexeme.isTerminal = true) :
    (ofScanner scanner).lexemes = ([], scanner.val.next.1.lexeme) := by
  rw [ofScanner]
  simp [h, lexemes]

theorem lexemes_ofScanner_of_full {scanner : { s : Scanner // s.Sound }}
    (h : scanner.val.next.1.lexeme.isTerminal = false) :
    (ofScanner scanner).lexemes =
      (scanner.val.next.1.lexeme ::
          (ofScanner ⟨scanner.val.next.2, Scanner.sound_next scanner.property⟩).lexemes.1,
        (ofScanner ⟨scanner.val.next.2, Scanner.sound_next scanner.property⟩).lexemes.2) := by
  rw [ofScanner]
  simp [h, lexemes]

theorem next_of_read {scanner : Scanner} (fault : scanner.fault = none) {l : Lexeme} {rest : Text}
    (h : read (skipGap false scanner.ahead) = .ok (l, rest)) :
    scanner.next.1.lexeme = l ∧ scanner.next.2.ahead = rest ∧ scanner.next.2.fault = none := by
  simp [Scanner.next, fault, h]

theorem next_of_fault {scanner : Scanner} (fault : scanner.fault = none) {f : Fault}
    (h : read (skipGap false scanner.ahead) = .error f) :
    scanner.next.1.lexeme = .invalid f.cause := by
  simp [Scanner.next, fault, h]

/-- The lexemes from a scanner on are those of the text ahead of it. -/
theorem lexemes_ofScanner (scanner : { s : Scanner // s.Sound })
    (fault : scanner.val.fault = none) :
    (ofScanner scanner).lexemes = (ofText scanner.val.ahead).lexemes := by
  generalize bound : scanner.val.ahead.length = n
  induction n using Nat.strongRecOn generalizing scanner with
  | ind n ih =>
      let fresh : { s : Scanner // s.Sound } :=
        ⟨Scanner.ofText scanner.val.ahead, Scanner.sound_ofText _⟩
      show (ofScanner scanner).lexemes = (ofScanner fresh).lexemes
      cases found : read (skipGap false scanner.val.ahead) with
      | error f =>
          have here := next_of_fault fault found
          have there : fresh.val.next.1.lexeme = .invalid f.cause := next_of_fault rfl found
          rw [lexemes_ofScanner_of_terminal (by rw [here]; rfl),
            lexemes_ofScanner_of_terminal (by rw [there]; rfl), here, there]
      | ok pair =>
          obtain ⟨l, rest⟩ := pair
          have here := next_of_read fault found
          have there : fresh.val.next.1.lexeme = l ∧ fresh.val.next.2.ahead = rest ∧
              fresh.val.next.2.fault = none := next_of_read rfl found
          cases terminal : l.isTerminal with
          | true =>
              rw [lexemes_ofScanner_of_terminal (by rw [here.1]; exact terminal),
                lexemes_ofScanner_of_terminal (by rw [there.1]; exact terminal), here.1, there.1]
          | false =>
              have full : scanner.val.next.1.lexeme.isTerminal = false := by
                rw [here.1]
                exact terminal
              have shorter := Scanner.length_next_lt scanner.property full
              have shorter' : fresh.val.next.2.ahead.length < n := by
                rw [there.2.1, ← bound, ← here.2.1]
                exact shorter
              have left := ih _ (bound ▸ shorter) ⟨_, Scanner.sound_next scanner.property⟩
                here.2.2 rfl
              have right := ih _ shorter' ⟨_, Scanner.sound_next fresh.property⟩ there.2.2 rfl
              have full' : fresh.val.next.1.lexeme.isTerminal = false := by
                rw [there.1]
                exact terminal
              rw [lexemes_ofScanner_of_full full, lexemes_ofScanner_of_full full', here.1, there.1,
                left, right, here.2.1, there.2.1]

/-- The lexemes of a text are the one that opens it and those of the text behind. -/
theorem lexemes_of_opens {s rest : Text} {l : Lexeme} (h : Opens s l rest) :
    (ofText s).lexemes = (l :: (ofText rest).lexemes.1, (ofText rest).lexemes.2) := by
  let fresh : { s : Scanner // s.Sound } := ⟨Scanner.ofText s, Scanner.sound_ofText _⟩
  have next : fresh.val.next.1.lexeme = l ∧ fresh.val.next.2.ahead = rest ∧
      fresh.val.next.2.fault = none := next_of_read rfl h.1
  have behind := lexemes_ofScanner ⟨_, Scanner.sound_next fresh.property⟩ next.2.2
  show (ofScanner fresh).lexemes = _
  rw [lexemes_ofScanner_of_full (by rw [next.1]; exact h.2), next.1, behind, next.2.1]

/-- A text whose first lexeme is terminal has no other. -/
theorem lexemes_of_terminal {s rest : Text} {l : Lexeme}
    (h : read (skipGap false s) = .ok (l, rest)) (terminal : l.isTerminal = true) :
    (ofText s).lexemes = ([], l) := by
  let fresh : { s : Scanner // s.Sound } := ⟨Scanner.ofText s, Scanner.sound_ofText _⟩
  have next : fresh.val.next.1.lexeme = l := (next_of_read rfl h).1
  show (ofScanner fresh).lexemes = _
  rw [lexemes_ofScanner_of_terminal (by rw [next]; exact terminal), next]

/-- A text of white space and comments has no lexeme but the end of the input. -/
theorem lexemes_of_gap {s : Text} (h : skipGap false s = []) :
    (ofText s).lexemes = ([], .endOfInput) := by
  have last : read (skipGap false s) = .ok (.endOfInput, []) := by
    rw [h]
    rfl
  exact lexemes_of_terminal last rfl

/-- A text whose first lexeme cannot be read has no lexeme but the fault. -/
theorem lexemes_of_fault {s : Text} {f : Fault} (h : read (skipGap false s) = .error f) :
    (ofText s).lexemes = ([], .invalid f.cause) := by
  let fresh : { s : Scanner // s.Sound } := ⟨Scanner.ofText s, Scanner.sound_ofText _⟩
  have next : fresh.val.next.1.lexeme = .invalid f.cause := next_of_fault rfl h
  show (ofScanner fresh).lexemes = _
  rw [lexemes_ofScanner_of_terminal (by rw [next]; rfl), next]

/-- The lexemes of a text are those of what stands behind white space and comments. -/
theorem lexemes_congr {s t : Text} (same : skipGap false s = skipGap false t) :
    (ofText s).lexemes = (ofText t).lexemes := by
  cases found : read (skipGap false s) with
  | error f => rw [lexemes_of_fault found, lexemes_of_fault (same ▸ found)]
  | ok pair =>
      obtain ⟨l, rest⟩ := pair
      cases terminal : l.isTerminal with
      | true => rw [lexemes_of_terminal found terminal, lexemes_of_terminal (same ▸ found) terminal]
      | false =>
          have opens : Opens s l rest := ⟨found, terminal⟩
          have opens' : Opens t l rest := ⟨same ▸ found, terminal⟩
          rw [lexemes_of_opens opens, lexemes_of_opens opens']

theorem isTerminal_last (scanner : { s : Scanner // s.Sound }) :
    (ofScanner scanner).last.lexeme.isTerminal = true := by
  generalize bound : scanner.val.ahead.length = n
  induction n using Nat.strongRecOn generalizing scanner with
  | ind n ih =>
      cases terminal : scanner.val.next.1.lexeme.isTerminal with
      | true =>
          have last := congrArg Prod.snd (lexemes_ofScanner_of_terminal terminal)
          exact (congrArg isTerminal last).trans terminal
      | false =>
          have last := congrArg Prod.snd (lexemes_ofScanner_of_full terminal)
          have shorter := Scanner.length_next_lt scanner.property terminal
          exact (congrArg isTerminal last).trans
            (ih _ (bound ▸ shorter) ⟨_, Scanner.sound_next scanner.property⟩ rfl)

end TokenStream

namespace Cursor

/-- Whether the lexemes ahead of a cursor are those of a text. -/
structure At (c : Cursor) (s : Text) : Prop where
  ahead : c.ahead.map (·.lexeme) = (TokenStream.ofText s).lexemes.1
  last : c.last.lexeme = (TokenStream.ofText s).lexemes.2

theorem at_ofStream (s : Text) : (ofStream (TokenStream.ofText s)).At s := ⟨rfl, rfl⟩

theorem At.isTerminal {c : Cursor} {s : Text} (h : c.At s) : c.last.lexeme.isTerminal = true := by
  rw [h.last]
  exact TokenStream.isTerminal_last _

variable {c : Cursor} {s rest : Text} {l : Lexeme}

theorem At.opened (h : c.At s) (opens : Opens s l rest) :
    ∃ t ts, c.ahead = t :: ts ∧ t.lexeme = l ∧ { c with ahead := ts }.At rest := by
  have lexemes := TokenStream.lexemes_of_opens opens
  have ahead := h.ahead
  rw [lexemes] at ahead
  obtain ⟨t, ts, same, head, tail⟩ := List.map_eq_cons_iff.mp ahead
  refine ⟨t, ts, same, head, tail, ?_⟩
  rw [h.last, lexemes]

theorem At.token (h : c.At s) (opens : Opens s l rest) : c.token.lexeme = l := by
  obtain ⟨t, ts, same, head, _⟩ := h.opened opens
  rw [Cursor.token, same, List.headD_cons, head]

theorem At.same_token {d : Cursor} (hc : c.At s) (hd : d.At s) :
    c.token.lexeme = d.token.lexeme := by
  have head : ∀ {c : Cursor}, c.At s → c.token.lexeme =
      (TokenStream.ofText s).lexemes.1.headD (TokenStream.ofText s).lexemes.2 := by
    intro c h
    rw [← h.ahead, ← h.last, Cursor.token]
    cases c.ahead <;> rfl
  rw [head hc, head hd]

theorem At.advance (h : c.At s) (opens : Opens s l rest) : c.advance.At rest := by
  obtain ⟨t, ts, same, _, tail⟩ := h.opened opens
  rw [Cursor.advance, same, List.tail_cons]
  exact tail

theorem At.space {b : Byte} (h : c.At (b :: s)) (space : b.isSpace = true) : c.At s := by
  have same : (TokenStream.ofText (b :: s)).lexemes = (TokenStream.ofText s).lexemes :=
    TokenStream.lexemes_congr (by simp [skipGap, space])
  exact ⟨h.ahead.trans (by rw [same]), h.last.trans (by rw [same])⟩

theorem At.spelled (h : c.At s) : c.Spelled := by
  have spelled := spelled_ofStream s
  refine ⟨fun t member => ?_, ?_⟩
  · have found : t.lexeme ∈ (TokenStream.ofText s).lexemes.1 :=
      h.ahead ▸ List.mem_map_of_mem (f := (·.lexeme)) member
    obtain ⟨u, hu, same⟩ := List.mem_map.mp found
    exact same ▸ spelled.1 u hu
  · rw [h.last]
    exact spelled.2

end Cursor

/-- Cursors in front of one text are in front of the same tokens. -/
theorem TwoRuns.aligned_of_at {S : TwoRuns} {c d : Cursor} {s : Text} (hc : c.At s) (hd : d.At s)
    (count : c.blankCount = d.blankCount) : S.Aligned c d where
  ahead := by
    have same : c.ahead.map (·.lexeme) = d.ahead.map (·.lexeme) := hc.ahead.trans hd.ahead.symm
    rw [← List.forall₂_eq_eq_eq, List.forall₂_map_left_iff, List.forall₂_map_right_iff] at same
    exact same.imp fun t u (lexemes : t.lexeme = u.lexeme) => lexemes ▸ .same _
  last := hc.last.trans hd.last.symm
  blankCount := count
  spelled := hd.spelled

end SparqlMetrics
