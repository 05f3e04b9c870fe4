import SparqlMetrics.Proofs.Token.Lexemes
import SparqlMetrics.Proofs.Token.Respaced

/-!
# Other words for tokens

A text with other words in the places of some of its tokens. When each of these words is one lexeme
with white space in front, the lexemes of the text are the old ones with the new ones in their
places: what is left of the text stands where it stood, behind or in front of white space. Main
statement: `TokenStream.lexemes_splice`.
-/
namespace SparqlMetrics

open Lexeme

/-- A text with words in the places of some of its tokens. The text begins at an offset, and its
tokens follow in order. -/
def Text.spliceFrom (word? : Token → Option Text) : Nat → List Token → Text → Text
  | _, [], s => s
  | offset, t :: ts, s =>
    let word := (s.drop (t.start - offset)).take (t.stop - t.start)
    s.take (t.start - offset) ++ ((word? t).getD word ++
      spliceFrom word? t.stop ts (s.drop (t.stop - offset)))

/-- A text with words in the places of some of its tokens. -/
def Text.splice (word? : Token → Option Text) (s : Text) : Text :=
  spliceFrom word? 0 (TokenStream.ofText s).tokens s

namespace Lexeme

/-- What is passed over in front of a lexeme is passed over in front of every text. -/
theorem exists_gap (inComment : Bool) (s : Text) : ∃ gap, s = gap ++ skipGap inComment s ∧
    (skipGap inComment s ≠ [] → ∀ t, skipGap inComment (gap ++ t) = skipGap false t) := by
  induction s generalizing inComment with
  | nil => exact ⟨[], rfl, fun nonempty => absurd rfl nonempty⟩
  | cons b rest ih =>
      have step : ∀ next : Bool, (∀ t, skipGap inComment (b :: t) = skipGap next t) →
          ∃ gap, b :: rest = gap ++ skipGap inComment (b :: rest) ∧
            (skipGap inComment (b :: rest) ≠ [] →
              ∀ t, skipGap inComment (gap ++ t) = skipGap false t) := by
        intro next passes
        obtain ⟨gap, same, alike⟩ := ih next
        rw [passes]
        exact ⟨b :: gap, congrArg (b :: ·) same, fun nonempty t => (passes _).trans (alike nonempty t)⟩
      cases inComment with
      | true => exact step _ fun t => by rw [skipGap, if_pos rfl]
      | false =>
          by_cases white : b.isSpace = true
          · exact step false fun t => by simp [skipGap, white]
          by_cases hash : (b == Byte.hash) = true
          · exact step true fun t => by
              simp only [skipGap, white, hash, Bool.false_eq_true, if_false, if_true]
          · refine ⟨[], ?_, fun _ t => rfl⟩
            simp only [skipGap, white, hash, Bool.false_eq_true, if_false, List.nil_append]

/-- Nothing is passed over twice. -/
theorem skipGap_skipGap (inComment : Bool) (s : Text) :
    skipGap false (skipGap inComment s) = skipGap inComment s := by
  induction s generalizing inComment with
  | nil => rfl
  | cons b rest ih =>
      rw [skipGap]
      split
      · exact ih _
      split
      · exact ih _
      split
      · exact ih _
      · next white hash =>
        simp only [skipGap, white, hash, Bool.false_eq_true, if_false]

theorem skipGap_of_head? {s t : Text} (h : skipGap false s = s) (nonempty : s ≠ [])
    (same : t.head? = s.head?) : skipGap false t = t := by
  cases s with
  | nil => exact absurd rfl nonempty
  | cons b rest =>
      cases t with
      | nil => rfl
      | cons c more =>
          obtain rfl : c = b := Option.some.inj same
          have solid : ∀ {inComment : Bool}, skipGap inComment rest ≠ c :: rest := by
            intro inComment same
            have bound := length_skipGap_le inComment rest
            rw [same, List.length_cons] at bound
            omega
          rw [skipGap] at h ⊢
          split at h
          · exact absurd h solid
          split at h
          · exact absurd h solid
          split at h
          · exact absurd h solid
          · next comment white hash => rw [if_neg comment, if_neg white, if_neg hash]

theorem Opens.length_lt {s rest : Text} {l : Lexeme} (h : Opens s l rest) :
    rest.length < (skipGap false s).length := by
  cases ahead : skipGap false s with
  | nil =>
      have last := h.1
      rw [ahead] at last
      obtain ⟨rfl, _⟩ := Prod.mk.inj (Except.ok.inj last)
      cases h.2
  | cons b more =>
      have read := h.1
      rw [ahead] at read
      exact Nat.lt_succ_of_le (length_of_readFrom read)

/-- A text that opens with a lexeme is white space, a word and the text behind it; in front of a
text that may follow it in the place of that one, the word is read alike. -/
theorem Opens.exists_word {s rest : Text} {l : Lexeme} (h : Opens s l rest) :
    ∃ gap word, s = gap ++ (word ++ rest) ∧ word ≠ [] ∧ skipGap false s = word ++ rest ∧
      (∀ t, skipGap false (gap ++ t) = skipGap false t) ∧
      ∀ t, StandsIn rest t → Opens (word ++ t) l t := by
  have shorter := h.length_lt
  obtain ⟨gap, cut, passes⟩ := exists_gap false s
  obtain ⟨word, same, alike⟩ := read_locally h.1 h.2
  have nonempty : word ≠ [] := by
    rintro rfl
    rw [same, List.nil_append] at shorter
    omega
  refine ⟨gap, word, same ▸ cut, nonempty, same, passes ?_, fun t follows => ⟨?_, h.2⟩⟩
  · rw [same]
    simp [nonempty]
  · have still : skipGap false (word ++ t) = word ++ t := by
      have idle := skipGap_skipGap false s
      rw [same] at idle
      refine skipGap_of_head? idle (by simp [nonempty]) ?_
      cases word with
      | nil => exact absurd rfl nonempty
      | cons b word => rfl
    rw [still]
    exact alike t follows

end Lexeme

namespace TokenStream

variable {n : Nat} {s rest : Text} {l : Lexeme}

/-- The tokens of what is left of a text of `n` bytes. -/
def ofRest (n : Nat) (s : Text) : TokenStream := ofScanner ⟨⟨n, s, none⟩, nofun⟩

theorem lexemes_ofRest (n : Nat) (s : Text) : (ofRest n s).lexemes = (ofText s).lexemes :=
  lexemes_ofScanner _ rfl

theorem ofRest_of_opens (n : Nat) (h : Opens s l rest) :
    ofRest n s =
      ⟨⟨l, n - (skipGap false s).length, n - rest.length⟩ :: (ofRest n rest).tokens,
        (ofRest n rest).last⟩ := by
  have next : (⟨n, s, none⟩ : Scanner).next =
      (⟨l, n - (skipGap false s).length, n - rest.length⟩, ⟨n, rest, none⟩) := by
    simp only [Scanner.next, h.1]
  have full : ¬ (⟨n, s, none⟩ : Scanner).next.1.lexeme.isTerminal = true := by
    rw [next]
    simp [h.2]
  rw [ofRest, ofScanner, dif_neg full]
  simp only [next, ofRest]

/-- A text with a token is opened by it, with the other tokens behind. -/
theorem exists_opens {last : Lexeme} {ls : List Lexeme}
    (h : (ofText s).lexemes = (l :: ls, last)) :
    ∃ rest, Opens s l rest ∧ (ofText rest).lexemes = (ls, last) := by
  cases found : read (skipGap false s) with
  | error fault =>
      rw [lexemes_of_fault found] at h
      cases (Prod.mk.inj h).1
  | ok pair =>
      obtain ⟨first, rest⟩ := pair
      cases terminal : first.isTerminal with
      | true =>
          rw [lexemes_of_terminal found terminal] at h
          cases (Prod.mk.inj h).1
      | false =>
          have behind : (ofText s).lexemes = _ := lexemes_of_opens ⟨found, terminal⟩
          obtain ⟨heads, tail⟩ := Prod.mk.inj (h.symm.trans behind)
          obtain ⟨rfl, rfl⟩ := List.cons.inj heads
          exact ⟨rest, ⟨found, terminal⟩, Prod.ext rfl tail.symm⟩

theorem tokens_ofRest_eq_nil (n : Nat) (h : ∀ l rest, ¬ Opens s l rest) :
    (ofRest n s).tokens = [] := by
  cases found : (ofText s).lexemes.1 with
  | nil =>
      have noTokens := congrArg Prod.fst (lexemes_ofRest n s)
      rw [found] at noTokens
      exact List.map_eq_nil_iff.mp noTokens
  | cons l ls =>
      obtain ⟨rest, opens, _⟩ := exists_opens (Prod.ext found rfl : (ofText s).lexemes = (l :: ls, _))
      exact absurd opens (h l rest)

/-- A text is the one behind a lexeme and what stands in front, up to a text without lexemes. -/
theorem induction_opens {P : Text → Prop} (stop : ∀ s, (∀ l rest, ¬ Opens s l rest) → P s)
    (token : ∀ s l rest, Opens s l rest → P rest → P s) (s : Text) : P s := by
  generalize bound : s.length = k
  induction k using Nat.strongRecOn generalizing s with
  | ind k ih =>
      by_cases opened : ∃ l rest, Opens s l rest
      · obtain ⟨l, rest, opens⟩ := opened
        have shorter := Nat.lt_of_lt_of_le opens.length_lt (length_skipGap_le false s)
        exact token s l rest opens (ih _ (bound ▸ shorter) rest rfl)
      · exact stop s fun l rest opens => opened ⟨l, rest, opens⟩

/-- What is left of a text with words in the places of tokens. -/
def spliceRest (word? : Token → Option Text) (n : Nat) (s : Text) : Text :=
  Text.spliceFrom word? (n - s.length) (ofRest n s).tokens s

theorem splice_eq (word? : Token → Option Text) (s : Text) :
    Text.splice word? s = spliceRest word? s.length s := by
  rw [Text.splice, spliceRest, Nat.sub_self]
  rfl

section Words
variable {word? : Token → Option Text}

theorem spliceRest_of_none (h : ∀ l rest, ¬ Opens s l rest) : spliceRest word? n s = s := by
  rw [spliceRest, tokens_ofRest_eq_nil n h]
  rfl

/-- In front of the rest stands the gap and the word of the first token, or the one in its place. -/
theorem spliceRest_of_opens (h : Opens s l rest) (bound : s.length ≤ n) {gap word : Text}
    (cut : s = gap ++ (word ++ rest)) (ahead : skipGap false s = word ++ rest) :
    spliceRest word? n s =
      gap ++ ((word? ⟨l, n - (skipGap false s).length, n - rest.length⟩).getD word ++
        spliceRest word? n rest) := by
  have whole : s.length = gap.length + (word.length + rest.length) := by
    rw [cut]
    simp
  have size : (skipGap false s).length = word.length + rest.length := by
    rw [ahead]
    simp
  have toWord : n - (skipGap false s).length - (n - s.length) = gap.length := by omega
  have toEnd : n - rest.length - (n - (skipGap false s).length) = word.length := by omega
  have toRest : n - rest.length - (n - s.length) = (gap ++ word).length := by
    rw [List.length_append]
    omega
  have parts : s = (gap ++ word) ++ rest := by rw [cut, List.append_assoc]
  rw [spliceRest, ofRest_of_opens n h, Text.spliceFrom]
  simp only [toWord, toEnd, toRest]
  have gapOf : s.take gap.length = gap := by rw [cut, List.take_left]
  have wordOf : (s.drop gap.length).take word.length = word := by
    rw [cut, List.drop_left, List.take_left]
  have restOf : s.drop (gap ++ word).length = rest := by rw [parts, List.drop_left]
  rw [gapOf, wordOf, restOf, spliceRest]

/-- Words with white space in front, each of one lexeme. -/
structure Spliced (word? : Token → Option Text) (lexeme : Token → Lexeme) : Prop where
  white : ∀ {t word}, word? t = some word → ∃ b more, word = b :: more ∧ b.isSpace = true
  spells : ∀ {t word}, word? t = some word → Spells word [lexeme t]
  kept : ∀ {t}, word? t = none → lexeme t = t.lexeme

variable {lexeme : Token → Lexeme}

theorem respaced_spliceRest (h : Spliced word? lexeme) (bound : s.length ≤ n) :
    Respaced s (spliceRest word? n s) := by
  induction s using induction_opens with
  | stop s unopened =>
      rw [spliceRest_of_none unopened]
      exact .refl s
  | token s l rest opens ih =>
      obtain ⟨gap, word, cut, nonempty, ahead, _, _⟩ := opens.exists_word
      have shorter : rest.length ≤ n := by
        rw [cut] at bound
        simp only [List.length_append] at bound
        omega
      rw [spliceRest_of_opens opens bound cut ahead]
      cases found : word? ⟨l, n - (skipGap false s).length, n - rest.length⟩ with
      | some new =>
          obtain ⟨b, more, rfl, isWhite⟩ := h.white found
          conv => enter [1]; rw [cut]
          exact Respaced.append gap (.space isWhite (by simp [nonempty]))
      | none =>
          conv => enter [1]; rw [cut]
          exact ((ih shorter).append word).append gap

theorem lexemes_spliceRest (h : Spliced word? lexeme) (bound : s.length ≤ n) :
    (ofText (spliceRest word? n s)).lexemes =
      ((ofRest n s).tokens.map lexeme, (ofRest n s).last.lexeme) := by
  induction s using induction_opens with
  | stop s none =>
      rw [spliceRest_of_none none, ← lexemes_ofRest n, lexemes, tokens_ofRest_eq_nil n none]
      rfl
  | token s l rest opens ih =>
      obtain ⟨gap, word, cut, _, ahead, passes, alike⟩ := opens.exists_word
      have shorter : rest.length ≤ n := by
        rw [cut] at bound
        simp only [List.length_append] at bound
        omega
      rw [spliceRest_of_opens opens bound cut ahead, lexemes_congr (passes _), ofRest_of_opens n opens,
        List.map_cons]
      cases found : word? ⟨l, n - (skipGap false s).length, n - rest.length⟩ with
      | some new =>
          rw [Option.getD_some, h.spells found, ih shorter]
          rfl
      | none =>
          have respaced := respaced_spliceRest h shorter
          rw [Option.getD_none, lexemes_of_opens (alike _ (.inl respaced)), ih shorter, h.kept found]

/-- The lexemes of a text with other words for tokens are those of the other words in their places. -/
theorem lexemes_splice (h : Spliced word? lexeme) (s : Text) :
    (ofText (Text.splice word? s)).lexemes =
      ((ofText s).tokens.map lexeme, (ofText s).last.lexeme) := by
  rw [splice_eq, lexemes_spliceRest h (Nat.le_refl _)]
  rfl

end Words

theorem start_le_of_mem_ofRest {t : Token} (member : t ∈ (ofRest n s).tokens) :
    n - s.length ≤ t.start := by
  induction s using induction_opens with
  | stop s none =>
      rw [tokens_ofRest_eq_nil n none] at member
      cases member
  | token s l rest opens ih =>
      have gap := length_skipGap_le false s
      have word := opens.length_lt
      rw [ofRest_of_opens n opens] at member
      rcases List.mem_cons.mp member with rfl | member
      · show n - s.length ≤ n - (skipGap false s).length
        omega
      · have later := ih member
        omega

/-- Each token begins behind the one in front of it. -/
theorem pairwise_start (s : Text) : (ofText s).tokens.Pairwise fun t u => t.start < u.start := by
  have sorted : ∀ n, s.length ≤ n →
      (ofRest n s).tokens.Pairwise fun t u => t.start < u.start := by
    intro n bound
    induction s using induction_opens with
    | stop s none =>
        rw [tokens_ofRest_eq_nil n none]
        exact .nil
    | token s l rest opens ih =>
        have gap := length_skipGap_le false s
        have word := opens.length_lt
        rw [ofRest_of_opens n opens, List.pairwise_cons]
        refine ⟨fun u member => ?_, ih (by omega)⟩
        have later := start_le_of_mem_ofRest member
        show n - (skipGap false s).length < u.start
        omega
  exact sorted s.length (Nat.le_refl _)

end TokenStream

end SparqlMetrics
