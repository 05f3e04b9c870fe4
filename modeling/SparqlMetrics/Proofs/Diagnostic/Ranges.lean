import SparqlMetrics.Proofs.Diagnostic.Frames

/-!
# Bytes, lines and columns

A range between two offsets holds at least a byte of its text, whatever the offsets are, and its lines
and columns are those of its bytes. Each byte that is passed leads to a later place, so places stand in
the order of their offsets. Main statements: `lineColumn_isAt`, `before_lineColumn_iff`,
`SourceRange.ofBytes_agrees`.
-/
namespace SparqlMetrics

namespace LineColumn

/-- Whether a place is that of an offset: its line is one more than the number of line feeds in front
of the offset, its column one more than the distance from the byte behind the last of them, or from
the beginning of the text where there is none. -/
structure IsAt (place : LineColumn) (s : Text) (offset : Nat) : Prop where
  line : place.line = 1 + (s.take offset).count Byte.newline
  column : ∃ start ≤ offset,
    (start = 0 ∨ (s.take start).getLast? = some Byte.newline) ∧
    Byte.newline ∉ (s.take offset).drop start ∧ place.column = 1 + (offset - start)

/-- Whether a place stands in front of another: on an earlier line, or on the same one in an earlier
column. -/
def Before (p q : LineColumn) : Prop := p.line < q.line ∨ p.line = q.line ∧ p.column < q.column

variable {p q r : LineColumn}

theorem Before.trans (h : p.Before q) (h' : q.Before r) : p.Before r := by
  unfold Before at *
  omega

theorem Before.asymm (h : p.Before q) : ¬ q.Before p := by
  unfold Before at *
  omega

theorem before_pass (p : LineColumn) (b : Byte) : p.Before (p.pass b) := by
  rw [pass]
  split
  · exact .inl (Nat.lt_succ_self _)
  · exact .inr ⟨rfl, Nat.lt_succ_self _⟩

theorem before_foldl (p : LineColumn) (b : Byte) (s : Text) :
    p.Before ((b :: s).foldl pass p) := by
  induction s generalizing p b with
  | nil => exact before_pass p b
  | cons c s ih => exact (before_pass p b).trans (ih (p.pass b) c)

end LineColumn

variable {s : Text} {a b : Nat}

theorem before_lineColumn (less : a < b) (inside : b ≤ s.length) :
    (lineColumn s a).Before (lineColumn s b) := by
  obtain ⟨c, more, passed⟩ : ∃ c more, (s.drop a).take (b - a) = c :: more := by
    refine List.exists_cons_of_ne_nil (List.ne_nil_of_length_pos ?_)
    rw [List.length_take, List.length_drop]
    omega
  have front : s.take b = s.take a ++ (c :: more) := by
    rw [← passed, ← List.take_add, Nat.add_sub_cancel' less.le]
  rw [lineColumn, lineColumn, front, List.foldl_append]
  exact LineColumn.before_foldl _ c more

/-- Places stand in the order of their offsets. -/
theorem before_lineColumn_iff (ha : a ≤ s.length) (hb : b ≤ s.length) :
    (lineColumn s a).Before (lineColumn s b) ↔ a < b := by
  refine ⟨fun before => ?_, fun less => before_lineColumn less hb⟩
  rcases Nat.lt_trichotomy a b with less | same | greater
  · exact less
  · exact absurd before (same ▸ before.asymm)
  · exact absurd before (before_lineColumn greater ha).asymm

/-- Each offset has a place of its own. -/
theorem lineColumn_inj (ha : a ≤ s.length) (hb : b ≤ s.length) :
    lineColumn s a = lineColumn s b ↔ a = b := by
  refine ⟨fun same => ?_, congrArg (lineColumn s)⟩
  have here := before_lineColumn_iff ha hb
  have there := before_lineColumn_iff hb ha
  rw [same] at here there
  have both : a < b ↔ b < a := here.symm.trans there
  omega

theorem lineColumn_isAt {offset : Nat} (inside : offset ≤ s.length) :
    (lineColumn s offset).IsAt s offset := by
  obtain ⟨front, cut, opens, free⟩ := Text.exists_lastLine (s.take offset)
  have length : front.length + (Text.lastLine (s.take offset)).length = offset := by
    have length := congrArg List.length cut
    rw [List.length_take, Nat.min_eq_left inside, List.length_append] at length
    exact length.symm
  have toLine : s.take front.length = front := by
    have shorter := congrArg (List.take front.length) cut
    rwa [List.take_take, Nat.min_eq_left (by omega), List.take_left] at shorter
  rw [lineColumn_eq]
  refine ⟨Nat.add_comm _ _, front.length, by omega, ?_, ?_, ?_⟩
  · rw [toLine]
    exact opens.imp_left fun empty => by rw [empty]; rfl
  · rw [cut, List.drop_left]
    exact free
  · show (Text.lastLine (s.take offset)).length + 1 = 1 + (offset - front.length)
    omega

namespace SourceRange

variable {start stop : Nat}

/-- Whether the bytes of a range, of which there is one at least, are in a text, its lines and columns
are theirs, and the line that is shown for it is the one that its first byte is in. -/
structure Agrees (range : SourceRange) (s : Text) : Prop where
  nonempty : range.byteStart < range.byteEnd
  inside : range.byteEnd ≤ s.length
  first : range.first.IsAt s range.byteStart
  behind : range.behind.IsAt s range.byteEnd
  shown : ∃ line, SourceLine s range.byteStart range.first line ∧
    Text.IsContent (range.lineText s) line

theorem ofBytes_eq (nonempty : s ≠ []) (start stop : Nat) : ∃ first behind,
    ofBytes s start stop = ⟨lineColumn s first, lineColumn s behind, first, behind⟩ ∧
      first < behind ∧ behind ≤ s.length ∧ (first = start ↔ start < s.length) ∧
      (behind = stop ↔ first < stop ∧ stop ≤ s.length) := by
  have long := List.length_pos_iff.mpr nonempty
  refine ⟨min start (s.length - 1), min (max stop (min start (s.length - 1) + 1)) s.length,
    if_neg (by simpa using nonempty), ?_⟩
  omega

/-- The range between two offsets of a text agrees with the text, whatever the offsets are. The first
one is kept exactly when it is that of a byte, and the other one when it is behind the first byte of
the range and not behind the text. Of two such ranges the one that begins at the earlier byte begins
at the earlier place. -/
theorem ofBytes_agrees (nonempty : s ≠ []) (start stop : Nat) :
    let range := ofBytes s start stop
    range.Agrees s ∧ (range.byteStart = start ↔ start < s.length) ∧
      (range.byteEnd = stop ↔ range.byteStart < stop ∧ stop ≤ s.length) ∧
      ∀ start' stop', let other := ofBytes s start' stop'
        (range.first.Before other.first ↔ range.byteStart < other.byteStart) ∧
          (range.first = other.first ↔ range.byteStart = other.byteStart) := by
  obtain ⟨first, behind, range, less, inside, keptFirst, keptBehind⟩ := ofBytes_eq nonempty start stop
  have first_le : first ≤ s.length := less.le.trans inside
  rw [range]
  refine ⟨?_, keptFirst, keptBehind, fun start' stop' => ?_⟩
  · exact {
      nonempty := less
      inside := inside
      first := lineColumn_isAt first_le
      behind := lineColumn_isAt inside
      shown := ⟨_, sourceLine_lineAt first_le, isContent_lineText rfl⟩ }
  · obtain ⟨first', behind', other, less', inside', _⟩ := ofBytes_eq nonempty start' stop'
    have first_le' : first' ≤ s.length := less'.le.trans inside'
    rw [other]
    exact ⟨before_lineColumn_iff first_le first_le', lineColumn_inj first_le first_le'⟩

/-- Behind a text that ends in a line feed the range is that byte, whose place is on the line that it
ends; the place behind it opens the next line. -/
theorem ofBytes_agrees_lastByte : let s := utf8 "a\r\nb\n"
    s ≠ [] ∧ ofBytes s 9 2 = ⟨⟨2, 2⟩, ⟨3, 1⟩, 4, 5⟩ ∧ (ofBytes s 9 2).Agrees s ∧
      ((ofBytes s 2 3).first.Before (ofBytes s 9 2).first ↔ 2 < 4) := by
  have nonempty : utf8 "a\r\nb\n" ≠ [] := by decide
  have later := (ofBytes_agrees nonempty 2 3).2.2.2 9 2
  exact ⟨nonempty, by decide, (ofBytes_agrees nonempty 9 2).1, later.1⟩

end SourceRange

end SparqlMetrics
