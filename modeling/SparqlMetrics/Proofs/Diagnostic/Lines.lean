import Mathlib.Data.List.DropRight
import SparqlMetrics.Diagnostic.Frame
import SparqlMetrics.Proofs.Text.Fields

/-!
# Lines and columns

The line of an offset is one more than the number of line feeds in front of it, and its column one
more than its distance from the last of them. The same line feeds are where a text is split, so the
line that is picked by its number is the one that the offset is in. Main statements:
`lineColumn_eq`, `sourceLine_lineAt`, `getD_split`.
-/
namespace SparqlMetrics

/-- A line of a text, without its line feed, with an offset in it: the line feeds on its two sides
are the nearest ones, and the offset is that of one of its bytes or of the line feed behind them.
The place of the offset is told with it. -/
inductive SourceLine (s : Text) (offset : Nat) : LineColumn → Text → Prop
  | intro {before line behind : Text} : s = before ++ (line ++ behind) →
      before = [] ∨ before.getLast? = some Byte.newline → Byte.newline ∉ line →
      behind = [] ∨ behind.head? = some Byte.newline →
      before.length ≤ offset → offset ≤ before.length + line.length →
      SourceLine s offset ⟨before.count Byte.newline + 1, offset - before.length + 1⟩ line

theorem SourceLine.free {s line : Text} {offset : Nat} {place : LineColumn}
    (h : SourceLine s offset place line) : Byte.newline ∉ line := by
  cases h
  assumption

namespace Text

/-- What stands behind the last line feed of a text. -/
def lastLine (s : Text) : Text := s.rtakeWhile (· != Byte.newline)

/-- What stands in front of the first line feed of a text. -/
def firstLine (s : Text) : Text := s.takeWhile (· != Byte.newline)

def lineAt (s : Text) (offset : Nat) : Text :=
  lastLine (s.take offset) ++ firstLine (s.drop offset)

variable {s t line : Text} {lines : List Text} {b : Byte}

theorem lastLine_concat_newline (s : Text) : (s ++ [Byte.newline]).lastLine = [] :=
  List.rtakeWhile_concat_neg _ _ _ (by decide)

theorem lastLine_concat (s : Text) (other : b ≠ Byte.newline) :
    (s ++ [b]).lastLine = s.lastLine ++ [b] :=
  List.rtakeWhile_concat_pos _ _ _ (by simpa using other)

/-- In front of the last line there is nothing or a line feed. -/
theorem exists_lastLine (s : Text) : ∃ front, s = front ++ s.lastLine ∧
    (front = [] ∨ front.getLast? = some Byte.newline) ∧ Byte.newline ∉ s.lastLine := by
  induction s using List.reverseRecOn with
  | nil => exact ⟨[], rfl, .inl rfl, nofun⟩
  | append_singleton s b ih =>
      by_cases newline : b = Byte.newline
      · subst newline
        rw [lastLine_concat_newline]
        exact ⟨_, (List.append_nil _).symm, .inr List.getLast?_concat, nofun⟩
      · obtain ⟨front, cut, ends, free⟩ := ih
        rw [lastLine_concat s newline]
        refine ⟨front, by rw [← List.append_assoc, ← cut], ends, ?_⟩
        simpa using ⟨free, Ne.symm newline⟩

/-- Behind the first line there is nothing or a line feed. -/
theorem exists_firstLine (s : Text) : ∃ behind, s = s.firstLine ++ behind ∧
    (behind = [] ∨ behind.head? = some Byte.newline) ∧ Byte.newline ∉ s.firstLine := by
  refine ⟨s.dropWhile (· != Byte.newline), List.takeWhile_append_dropWhile.symm, ?_,
    fun member => ?_⟩
  · have head := List.head?_dropWhile_not (· != Byte.newline) s
    cases behind : s.dropWhile (· != Byte.newline) with
    | nil => exact .inl rfl
    | cons b rest =>
        rw [behind] at head
        exact .inr (congrArg some (by simpa using head))
  · have inLine := List.mem_takeWhile_imp member
    simp at inLine

/-- What ends a text ends its last line, unless it is a line feed. -/
theorem getLast?_lastLine (other : b ≠ Byte.newline) :
    s.lastLine.getLast? = some b ↔ s.getLast? = some b := by
  induction s using List.reverseRecOn with
  | nil => exact Iff.rfl
  | append_singleton s c _ =>
      by_cases newline : c = Byte.newline
      · subst newline
        rw [lastLine_concat_newline, List.getLast?_concat]
        exact ⟨nofun, fun same => absurd (Option.some.inj same).symm other⟩
      · rw [lastLine_concat s newline, List.getLast?_concat, List.getLast?_concat]

theorem split_newline (s : Text) :
    split [Byte.newline] (Byte.newline :: s) = [] :: split [Byte.newline] s :=
  split_line List.not_mem_nil s

theorem split_cons (s : Text) (other : b ≠ Byte.newline) :
    split [Byte.newline] (b :: s) = consField b (split [Byte.newline] s) :=
  (hasFields_iff (by decide)).mp ((hasFields_split (by decide) s).consField (by decide)
    fun front => other (List.cons.inj (List.prefix_iff_eq_take.mp front)).1.symm)

/-- The first line is the first one that splitting gives. -/
theorem exists_split (s : Text) : ∃ lines, split [Byte.newline] s = s.firstLine :: lines := by
  induction s with
  | nil => exact ⟨[], rfl⟩
  | cons b s ih =>
      by_cases newline : b = Byte.newline
      · subst newline
        exact ⟨_, split_newline s⟩
      · obtain ⟨lines, split⟩ := ih
        have front : firstLine (b :: s) = b :: firstLine s :=
          List.takeWhile_cons_of_pos (by simpa using newline)
        exact ⟨lines, by rw [split_cons s newline, split, front, consField]⟩

/-- Behind the line feeds of a text its last line goes on. -/
theorem drop_split (h : split [Byte.newline] t = line :: lines) (s : Text) :
    (split [Byte.newline] (s ++ t)).drop (s.count Byte.newline) =
      (s.lastLine ++ line) :: lines := by
  induction s using List.reverseRecOn generalizing t line lines with
  | nil => exact h
  | append_singleton s b ih =>
      rw [List.append_assoc, List.singleton_append]
      by_cases newline : b = Byte.newline
      · subst newline
        have behind := ih (split_newline t)
        rw [List.count_append, List.count_singleton_self, ← List.drop_drop, behind,
          lastLine_concat_newline]
        exact h
      · have split : split [Byte.newline] (b :: t) = (b :: line) :: lines := by
          rw [split_cons t newline, h, consField]
        rw [List.count_append, List.count_singleton, if_neg (by simpa using newline), Nat.add_zero,
          ih split, lastLine_concat s newline, List.append_assoc, List.singleton_append]

/-- Picked by the number of line feeds in front of an offset, a line is the one that the offset is
in. -/
theorem getD_split (s : Text) (offset : Nat) :
    (split [Byte.newline] s).getD ((s.take offset).count Byte.newline) [] = s.lineAt offset := by
  obtain ⟨lines, behind⟩ := exists_split (s.drop offset)
  have whole := drop_split behind (s.take offset)
  rw [List.take_append_drop] at whole
  rw [List.getD_eq_getElem?_getD, ← List.head?_drop, whole]
  rfl

end Text

/-! ## Places -/

/-- The line and the column of an offset by the line feeds in front of it. -/
theorem lineColumn_eq (s : Text) (offset : Nat) : lineColumn s offset =
    ⟨(s.take offset).count Byte.newline + 1, (Text.lastLine (s.take offset)).length + 1⟩ := by
  rw [lineColumn]
  induction s.take offset using List.reverseRecOn with
  | nil => rfl
  | append_singleton s b ih =>
      rw [List.foldl_concat, ih, LineColumn.pass, List.count_append, List.count_singleton]
      by_cases newline : b = Byte.newline
      · subst newline
        rw [Text.lastLine_concat_newline]
        rfl
      · rw [Text.lastLine_concat s newline, if_neg (by simpa using newline),
          if_neg (by simpa using newline), List.length_append]
        rfl

/-- An offset of a text is in its line, at its place. -/
theorem sourceLine_lineAt {s : Text} {offset : Nat} (inside : offset ≤ s.length) :
    SourceLine s offset (lineColumn s offset) (s.lineAt offset) := by
  obtain ⟨front, cut, opens, free⟩ := Text.exists_lastLine (s.take offset)
  obtain ⟨behind, rest, closes, free'⟩ := Text.exists_firstLine (s.drop offset)
  have length : front.length + (Text.lastLine (s.take offset)).length = offset := by
    have length := congrArg List.length cut
    rw [List.length_take, Nat.min_eq_left inside, List.length_append] at length
    exact length.symm
  have count : (s.take offset).count Byte.newline = front.count Byte.newline := by
    conv_lhs => rw [cut]
    rw [List.count_append, List.count_eq_zero_of_not_mem free, Nat.add_zero]
  have column : (Text.lastLine (s.take offset)).length = offset - front.length := by omega
  rw [lineColumn_eq, count, column]
  refine @SourceLine.intro s offset front _ behind ?_ opens ?_ closes (by omega) ?_
  · rw [Text.lineAt, List.append_assoc, ← rest, ← List.append_assoc, ← cut, List.take_append_drop]
  · rw [Text.lineAt, List.mem_append, not_or]
    exact ⟨free, free'⟩
  · rw [Text.lineAt, List.length_append]
    omega

end SparqlMetrics
