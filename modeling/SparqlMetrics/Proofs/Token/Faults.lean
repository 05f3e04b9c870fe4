import SparqlMetrics.Proofs.Token.Places
import SparqlMetrics.Proofs.Token.Strings

/-!
# Where faults are reported

A fault is reported at the token that it is in, at an escape of a string or at a byte that is no
digit of such an escape, or at the end of the text. So of the bytes at which an error can stand none
is the line feed behind a carriage return. Main statement: `Cursor.start_eq_length`.
-/
namespace SparqlMetrics

/-- Whether a carriage return and a line feed end with the byte at an offset; behind the end of the
text, whether they end the text. -/
def Text.EndsLineAt (s : Text) (offset : Nat) : Prop :=
  [Byte.carriageReturn, Byte.newline] <:+ s.take (offset + 1)

instance (s : Text) (offset : Nat) : Decidable (s.EndsLineAt offset) :=
  inferInstanceAs (Decidable (_ <:+ _))

theorem Text.endsLine_concat {front : Text} {b : Byte} :
    [Byte.carriageReturn, Byte.newline] <:+ front ++ [b] ↔
      b = Byte.newline ∧ front.getLast? = some Byte.carriageReturn := by
  constructor
  · rintro ⟨before, same⟩
    have same : (before ++ [Byte.carriageReturn]) ++ [Byte.newline] = front ++ [b] := by
      simpa using same
    obtain ⟨rfl, last⟩ := List.append_inj' same rfl
    exact ⟨(List.cons.inj last).1.symm, List.getLast?_concat⟩
  · rintro ⟨rfl, last⟩
    obtain ⟨before, rfl⟩ := List.getLast?_eq_some_iff.mp last
    exact ⟨before, by simp⟩

namespace Lexeme

/-- Whether a place of a text, given by what is ahead of it, is there and is not the line feed of a
line end with a carriage return. -/
def Clear (whole place : Text) : Prop :=
  ∃ front, whole = front ++ place ∧
    (place.head? = some Byte.newline → front.getLast? ≠ some Byte.carriageReturn)

variable {whole front opening s rest : Text} {b mark : Byte} {long : Bool} {state : StringState}
  {fault : Fault}

theorem clear_of_ne (front : Text) (cut : whole = front ++ b :: rest) (other : b ≠ Byte.newline) :
    Clear whole (b :: rest) :=
  ⟨front, cut, fun same => absurd (Option.some.inj same) other⟩

theorem clear_nil (whole : Text) : Clear whole [] := ⟨whole, (List.append_nil _).symm, nofun⟩

/-- At a clear place of a text no such line end ends, unless the place is its end. -/
theorem Clear.eq_nil (h : Clear whole rest) (ends : whole.EndsLineAt (whole.length - rest.length)) :
    rest = [] := by
  obtain ⟨front, rfl, clear⟩ := h
  cases rest with
  | nil => rfl
  | cons b rest =>
      have offset : (front ++ b :: rest).length - (b :: rest).length = front.length := by simp
      rw [Text.EndsLineAt, offset, List.take_append, List.take_of_length_le (Nat.le_succ _),
        Nat.add_sub_cancel_left] at ends
      obtain ⟨rfl, last⟩ := Text.endsLine_concat.mp ends
      exact absurd last (clear rfl)

/-! ## Strings -/

/-- What stands in front of a string scanner behind a backslash and in the digits of an escape. -/
def StringState.Follows (front : Text) : StringState → Prop
  | .plain => True
  | .escaped => front.getLast? = some Byte.backslash
  | .codePoint _ _ => front.getLast? ≠ some Byte.carriageReturn

theorem not_return_of_isHexDigit (digit : b.isHexDigit = true) : b ≠ Byte.carriageReturn := by
  rintro rfl
  cases digit

theorem addBytes_eq_error {bytes : Text} {result : Except Fault (Text × Text)}
    (h : addBytes bytes result = .error fault) : result = .error fault := by
  cases result with
  | ok pair => cases h
  | error raised => exact h

/-- Where a string scanner stops with a fault: at the opening of the string, at the backslash of an
escape, or behind what it has read of one. -/
theorem clear_of_stringBody (front : Text) (state : StringState) (opens : Clear whole opening)
    (cut : whole = front ++ s) (follows : state.Follows front)
    (h : stringBody opening mark long state s = .error fault) :
    Clear whole fault.ahead := by
  induction s generalizing state front with
  | nil =>
      cases state with
      | codePoint => exact Except.error.inj h ▸ clear_nil whole
      | _ => exact Except.error.inj h ▸ opens
  | cons b rest ih =>
      have behind : whole = front ++ [b] ++ rest := by rw [cut, List.append_assoc]; rfl
      have last : (front ++ [b]).getLast? = some b := List.getLast?_concat
      have plain : ∀ {bytes}, addBytes bytes (stringBody opening mark long .plain rest) =
          .error fault → Clear whole fault.ahead :=
        fun h => ih _ .plain behind trivial (addBytes_eq_error h)
      cases state with
      | plain =>
          rw [stringBody] at h
          split at h
          · split at h
            · split at h
              · cases h
              · exact plain h
            · cases h
          split at h
          · exact Except.error.inj h ▸ opens
          split at h
          · next escape =>
            have backslash := last.trans (congrArg some (beq_iff_eq.mp escape))
            exact ih _ .escaped behind backslash h
          · exact plain h
      | escaped =>
          rw [stringBody] at h
          split at h
          · exact plain h
          have digits : ∀ owed, b ≠ Byte.carriageReturn →
              (StringState.codePoint owed 0).Follows (front ++ [b]) := by
            intro owed other same
            rw [last] at same
            exact other (Option.some.inj same)
          split at h
          · next short => exact ih _ _ behind (digits 4 (by rw [beq_iff_eq.mp short]; decide)) h
          split at h
          · next wide => exact ih _ _ behind (digits 8 (by rw [beq_iff_eq.mp wide]; decide)) h
          · obtain ⟨before, rfl⟩ := List.getLast?_eq_some_iff.mp follows
            rw [← Except.error.inj h]
            exact clear_of_ne before (by rw [cut, List.append_assoc]; rfl) (by decide)
      | codePoint owed value =>
          rw [stringBody] at h
          split at h
          · next digit =>
            split at h
            · exact plain h
            · refine ih _ (.codePoint _ _) behind (fun same => ?_) h
              rw [last] at same
              exact not_return_of_isHexDigit digit (Option.some.inj same)
          · exact Except.error.inj h ▸ ⟨front, cut, fun _ => follows⟩

theorem clear_of_readString (cut : whole = front ++ mark :: rest) (solid : mark ≠ Byte.newline)
    (h : readString mark rest = .error fault) : Clear whole fault.ahead := by
  have opens := clear_of_ne front cut solid
  simp only [readString] at h
  split at h
  · cases h
  · next raised body =>
    rw [← Except.error.inj h]
    split at body
    · refine clear_of_stringBody (front ++ mark :: rest.take 2) .plain opens ?_ trivial body
      rw [List.append_assoc, List.cons_append, List.take_append_drop, cut]
    · exact clear_of_stringBody (front ++ [mark]) .plain opens (by simp [cut]) trivial body

/-! ## Tokens -/

/-- What is passed over in front of a token ends in front of a byte that is no white space. -/
theorem skipGap_solid {inComment : Bool} (h : skipGap inComment s = b :: rest) :
    b.isSpace = false := by
  induction s generalizing inComment with
  | nil => cases h
  | cons c s ih =>
      rw [skipGap] at h
      split at h
      · exact ih h
      split at h
      · exact ih h
      split at h
      · exact ih h
      · next solid _ => exact (List.cons.inj h).1 ▸ Bool.eq_false_iff.mpr solid

theorem ne_newline_of_solid (solid : b.isSpace = false) : b ≠ Byte.newline := by
  rintro rfl
  cases solid

theorem ahead_of_readPrefixedName {label : Text} (h : readPrefixedName label rest = .error fault) :
    label ≠ [] ∧ fault.ahead = label ++ Byte.colon :: rest := by
  unfold readPrefixedName at h
  split at h
  · next underscore =>
    split at h
    · exact ⟨beq_iff_eq.mp underscore ▸ List.cons_ne_nil _ _, Except.error.inj h ▸ rfl⟩
    · cases h
  · cases h

theorem FaultBy.clear (h : FaultBy b rest fault) (front : Text) (cut : whole = front ++ b :: rest)
    (solid : b.isSpace = false) : Clear whole fault.ahead := by
  have opens := clear_of_ne front cut (ne_newline_of_solid solid)
  cases h with
  | unexpected => exact opens
  | languageTag same read =>
      simp only [readLanguageTag] at read
      split at read
      · cases read
      · rw [← Except.error.inj read, ← same]
        exact opens
  | string _ read => exact clear_of_readString cut (ne_newline_of_solid solid) read
  | unlabelled _ read => exact absurd rfl (ahead_of_readPrefixedName read).1
  | word _ read =>
      simp only [readWord] at read
      split at read
      · next labelled =>
        have colon := beq_iff_eq.mp (Bool.and_eq_true_iff.mp labelled).1
        have behind : Byte.colon :: ((b :: rest).dropWhile isLabelByte).tail =
            (b :: rest).dropWhile isLabelByte := List.cons_head?_tail colon
        rw [(ahead_of_readPrefixedName read).2, behind, List.takeWhile_append_dropWhile]
        exact opens
      · cases read

theorem clear_of_read (suffix : s <:+ whole) (h : read (skipGap false s) = .error fault) :
    Clear whole fault.ahead := by
  obtain ⟨gap, cut, -⟩ := exists_gap false s
  obtain ⟨front, same⟩ := suffix
  cases ahead : skipGap false s with
  | nil =>
      rw [ahead] at h
      cases h
  | cons b rest =>
      rw [ahead] at h
      refine (faultBy_of_readFrom h).clear (front ++ gap) ?_ (skipGap_solid ahead)
      rw [← same, List.append_assoc, ← ahead, ← cut]

end Lexeme

open Lexeme

variable {s : Text}

/-- A full token does not begin at a line feed. -/
theorem Token.Placed.clear {t : Token} (h : t.Placed s) : Clear s (s.drop t.start) := by
  have read := h.read
  have nonempty := h.nonempty
  have inside := h.inside
  cases ahead : s.drop t.start with
  | nil =>
      have length := congrArg List.length ahead
      rw [List.length_drop, List.length_nil] at length
      omega
  | cons b rest =>
      rw [ahead] at read
      refine clear_of_ne (s.take t.start) (by rw [← ahead, List.take_append_drop]) ?_
      rintro rfl
      cases read

namespace TokenStream

/-- The last token begins at a clear place. -/
theorem clear_last (s : Text) :
    ∃ place, Clear s place ∧ (ofText s).last.start = s.length - place.length := by
  obtain last | ⟨ahead, fault, suffix, found, last⟩ := last_cases s
  · exact ⟨[], clear_nil s, last ▸ rfl⟩
  · exact ⟨fault.ahead, clear_of_read suffix found, last ▸ rfl⟩

end TokenStream

/-- No token begins at the line feed behind a carriage return; where such a line end ends the text,
a token may begin behind it. -/
theorem Cursor.start_eq_length {c : Cursor} (ahead : c.ahead <:+ (TokenStream.ofText s).tokens)
    (last : c.last = (TokenStream.ofText s).last) (ends : s.EndsLineAt c.token.start) :
    c.token.start = s.length := by
  obtain ⟨tokens, last', count⟩ := c
  cases tokens with
  | nil =>
      obtain ⟨place, clear, start⟩ := TokenStream.clear_last s
      rw [← show last' = _ from last] at start
      change s.EndsLineAt last'.start at ends
      rw [start] at ends
      rw [clear.eq_nil ends] at start
      exact start
  | cons t ts =>
      have placed := TokenStream.placed_of_mem s t (ahead.subset List.mem_cons_self)
      have start : t.start = s.length - (s.drop t.start).length := by
        have nonempty := placed.nonempty
        have inside := placed.inside
        rw [List.length_drop]
        omega
      change s.EndsLineAt t.start at ends
      rw [start] at ends
      have noText := placed.clear.eq_nil ends
      rw [noText] at start
      exact start

end SparqlMetrics
