import SparqlMetrics.Proofs.Token.Splice

/-!
# Other gaps between tokens

The source slices of a text's tokens, laid out again with other white space and comments in front of
them, between them and behind them. Every slice is read as the lexeme that it was: what stands behind
it opens with white space or is nothing at all, whatever stood behind it before. Main statement:
`TokenStream.lexemes_relaid`.
-/
namespace SparqlMetrics

open Lexeme

/-- White space and comments that run to the end of their lines. -/
inductive IsGap : Text → Prop
  | nil : IsGap []
  | white {b : Byte} {gap : Text} : b.isSpace = true → IsGap gap → IsGap (b :: gap)
  | comment {body gap : Text} : Byte.newline ∉ body → IsGap gap →
      IsGap (Byte.hash :: (body ++ Byte.newline :: gap))

namespace Lexeme

theorem skipGap_comment {body : Text} (inside : Byte.newline ∉ body) (s : Text) :
    skipGap true (body ++ Byte.newline :: s) = skipGap false s := by
  induction body with
  | nil => rfl
  | cons b rest ih =>
      have other : (b != Byte.newline) = true := by
        rw [bne_iff_ne]
        rintro rfl
        exact inside List.mem_cons_self
      rw [List.cons_append, skipGap, if_pos rfl, other]
      exact ih fun member => inside (List.mem_cons_of_mem _ member)

/-- A gap is passed over, whatever stands behind it. -/
theorem skipGap_of_isGap {gap : Text} (h : IsGap gap) (s : Text) :
    skipGap false (gap ++ s) = skipGap false s := by
  induction h with
  | nil => rfl
  | white space _ ih => simpa [skipGap, space] using ih
  | @comment body gap inside _ ih =>
      have opens : skipGap false (Byte.hash :: (body ++ Byte.newline :: (gap ++ s))) =
          skipGap true (body ++ Byte.newline :: (gap ++ s)) := rfl
      rw [List.cons_append, List.append_assoc, List.cons_append, opens, skipGap_comment inside, ih]

end Lexeme

/-- The source of a token in its text. -/
def Token.slice (s : Text) (t : Token) : Text := (s.drop t.start).take (t.stop - t.start)

/-- The sources of the tokens of a text, in order. -/
def Text.slices (s : Text) : List Text := (TokenStream.ofText s).tokens.map (Token.slice s)

/-- A gap in front of the words of a text and one behind each of them. -/
structure Layout where
  first : Text
  behind : List Text

namespace Layout

/-- Words with the gaps behind them. -/
def spread (words behind : List Text) : Text := (List.zipWith (· ++ ·) words behind).flatten

def text (l : Layout) (words : List Text) : Text := l.first ++ spread words l.behind

/-- Gaps behind words: each opens with white space unless it is empty, and none but the last one
is empty. -/
structure Separates (behind : List Text) : Prop where
  gap : ∀ g ∈ behind, IsGap g
  white : ∀ g ∈ behind, Detached g
  nonempty : ∀ g ∈ behind.dropLast, g ≠ []

/-- A layout with a gap for each of a number of words. -/
structure Fits (l : Layout) (words : List Text) : Prop where
  first : IsGap l.first
  length : l.behind.length = words.length
  behind : Separates l.behind

theorem Separates.tail {g : Text} {behind : List Text} (h : Separates (g :: behind)) :
    Separates behind where
  gap w member := h.gap w (List.mem_cons_of_mem _ member)
  white w member := h.white w (List.mem_cons_of_mem _ member)
  nonempty w member := by
    cases behind with
    | nil => cases member
    | cons g' more => exact h.nonempty w (List.mem_cons_of_mem _ member)

/-- Behind a word stands white space or nothing. -/
theorem Separates.detached {g : Text} {behind : List Text} (h : Separates (g :: behind))
    {words : List Text} (length : behind.length = words.length) :
    Detached (g ++ spread words behind) := by
  have white := h.white g List.mem_cons_self
  cases g with
  | cons b more => exact .cons (white b rfl)
  | nil =>
      cases behind with
      | nil =>
          rw [List.length_eq_zero_iff.mp length.symm]
          exact .nil
      | cons g' more => exact absurd rfl (h.nonempty [] List.mem_cons_self)

end Layout

namespace TokenStream

theorem slice_of_opens {whole front gap word s rest : Text} {l : Lexeme}
    (cut : whole = front ++ (gap ++ (word ++ rest))) (ahead : skipGap false s = word ++ rest) :
    Token.slice whole ⟨l, whole.length - (skipGap false s).length, whole.length - rest.length⟩ =
      word := by
  have size : whole.length = (front ++ gap).length + (word.length + rest.length) := by
    rw [cut]
    simp
    omega
  have toWord : whole.length - (skipGap false s).length = (front ++ gap).length := by
    rw [ahead, List.length_append]
    omega
  have toRest : whole.length - rest.length - (front ++ gap).length = word.length := by omega
  rw [Token.slice, toWord]
  simp only [toRest]
  rw [cut, ← List.append_assoc, List.drop_left, List.take_left]

/-- The slices of the tokens from a place on, spread with other gaps, have the same lexemes. -/
theorem lexemes_spread {whole : Text} (s : Text) (suffix : s <:+ whole)
    (ended : (ofText s).last.lexeme = .endOfInput) {behind : List Text}
    (length : behind.length = (ofRest whole.length s).tokens.length)
    (h : Layout.Separates behind) :
    (ofText (Layout.spread ((ofRest whole.length s).tokens.map (Token.slice whole)) behind)).lexemes =
      (ofText s).lexemes := by
  induction s using induction_opens generalizing behind with
  | stop s none =>
      have empty : (ofText s).lexemes = ([], .endOfInput) := by
        rw [← ended, ← lexemes_ofRest s.length, lexemes, tokens_ofRest_eq_nil _ none]
        rfl
      rw [tokens_ofRest_eq_nil _ none, empty]
      exact lexemes_of_gap rfl
  | token s l rest opens ih =>
      obtain ⟨gap, word, cut, _, ahead, _, alike⟩ := opens.exists_word
      obtain ⟨front, whole_eq⟩ := suffix
      have behindRest := lexemes_of_opens opens
      have ended' : (ofText rest).last.lexeme = .endOfInput := by
        rw [← ended]
        exact (congrArg Prod.snd behindRest).symm
      have suffix' : rest <:+ whole := ⟨front ++ (gap ++ word), by simp [← whole_eq, cut]⟩
      have slice := slice_of_opens (l := l) (whole_eq.symm.trans (congrArg (front ++ ·) cut)) ahead
      rw [ofRest_of_opens _ opens, List.map_cons, slice]
      rw [ofRest_of_opens _ opens, List.length_cons] at length
      cases behind with
      | nil => cases length
      | cons g behind =>
          have length' := Nat.succ.inj length
          have detached := h.detached (length'.trans (List.length_map (Token.slice whole)).symm)
          have opens' := alike _ (.inr detached)
          have passed := lexemes_congr (skipGap_of_isGap (h.gap g List.mem_cons_self)
            (Layout.spread ((ofRest whole.length rest).tokens.map (Token.slice whole)) behind))
          have spread : Layout.spread (word :: (ofRest whole.length rest).tokens.map
                (Token.slice whole)) (g :: behind) =
              word ++ (g ++ Layout.spread
                ((ofRest whole.length rest).tokens.map (Token.slice whole)) behind) := by
            simp [Layout.spread]
          rw [spread, lexemes_of_opens opens', passed, ih suffix' ended' length' h.tail, behindRest]

/-- The slices of a text's tokens in another layout have the lexemes of the text. -/
theorem lexemes_relaid {s : Text} (ended : (ofText s).last.lexeme = .endOfInput) {l : Layout}
    (fits : l.Fits s.slices) : (ofText (l.text s.slices)).lexemes = (ofText s).lexemes := by
  have length := fits.length.trans (List.length_map _)
  rw [Layout.text, lexemes_congr (skipGap_of_isGap fits.first _)]
  exact lexemes_spread s (List.suffix_refl s) ended length fits.behind

end TokenStream

end SparqlMetrics
