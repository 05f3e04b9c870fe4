import SparqlMetrics.Proofs.Token.Lexemes
import SparqlMetrics.Proofs.Token.Places

/-!
# A text in front of a line

A line feed ends every lexeme and every comment, so a text whose lexemes go on to its end is read
alike in front of a line, whatever that line holds. Main statement: `TokenStream.spells_line`.
-/
namespace SparqlMetrics

open Lexeme

namespace Lexeme

/-- What is passed over up to the end of a text is passed over in front of a line. -/
theorem skipGap_line {inComment : Bool} {s : Text} (h : skipGap inComment s = []) (t : Text) :
    skipGap inComment (s ++ Byte.newline :: t) = skipGap false t := by
  induction s generalizing inComment with
  | nil => cases inComment <;> rfl
  | cons b rest ih =>
      rw [skipGap] at h
      rw [List.cons_append, skipGap]
      split at h
      · next comment => rw [if_pos comment, ih h]
      split at h
      · next comment white => rw [if_neg comment, if_pos white, ih h]
      split at h
      · next comment white hash => rw [if_neg comment, if_neg white, if_pos hash, ih h]
      · cases h

end Lexeme

namespace TokenStream

variable {s : Text}

/-- The last lexeme of dots and a backslash is a fault. -/
theorem not_ended_of_dots (h : s.dropWhile (· == Byte.dot) = [Byte.backslash]) :
    (ofText s).lexemes.2 ≠ .endOfInput := by
  induction s with
  | nil => cases h
  | cons b rest ih =>
      by_cases dot : b = Byte.dot
      · subst dot
        have opens : Opens (Byte.dot :: rest) (.symbol .dot) rest :=
          opens_plain (s := .dot) (by decide) rest
        rw [lexemes_of_opens opens]
        exact ih h
      · rw [List.dropWhile_cons_of_neg (by simpa using dot)] at h
        have fault : Lexeme.read (skipGap false (b :: rest)) =
            .error ⟨.unexpectedByte Byte.backslash, [Byte.backslash]⟩ := by
          rw [h]
          rfl
        rw [lexemes_of_fault fault]
        nofun

/-- A text that is read to its end spells its lexemes in front of a line. -/
theorem spells_line (ended : (ofText s).lexemes.2 = .endOfInput) :
    Spells (s ++ [Byte.newline]) (ofText s).lexemes.1 := by
  intro t
  rw [List.append_assoc, List.singleton_append]
  induction s using induction_opens with
  | stop s unopened =>
      obtain ⟨gap, _⟩ | ⟨fault, found, _⟩ := last_cases_of_none 0 unopened
      · rw [lexemes_congr (skipGap_line gap t), lexemes_of_gap gap]
        rfl
      · rw [lexemes_of_fault found] at ended
        cases ended
  | token s l rest opens ih =>
      obtain ⟨gap, word, cut, _, _, passes, alike⟩ := opens.exists_word
      rw [lexemes_of_opens opens] at ended ⊢
      have follows : StandsIn rest (rest ++ Byte.newline :: t) := by
        have detached : Detached (Byte.newline :: t) := .cons (by decide)
        by_cases last : rest = []
        · exact .inr (last ▸ detached)
        · exact .inl (.ends last (fun dots => not_ended_of_dots dots ended) detached)
      have opens' : Opens (word ++ (rest ++ Byte.newline :: t)) l (rest ++ Byte.newline :: t) :=
        alike _ follows
      have whole : s ++ Byte.newline :: t = gap ++ (word ++ (rest ++ Byte.newline :: t)) := by
        conv => enter [1, 1]; rw [cut]
        simp only [List.append_assoc]
      rw [whole, lexemes_congr (passes _), lexemes_of_opens opens', ih ended]
      rfl

end TokenStream

end SparqlMetrics
