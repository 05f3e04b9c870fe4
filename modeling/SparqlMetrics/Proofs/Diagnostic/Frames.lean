import SparqlMetrics.Diagnostic.Basic
import SparqlMetrics.Proofs.Diagnostic.Lines
import SparqlMetrics.Proofs.Outcome
import SparqlMetrics.Proofs.Token.Faults

/-!
# Code frames

The frame of a range has four lines. The third shows the line that the range begins in, without a
carriage return at its end, and the first caret below it stands under the column where the range
begins. A range that begins at the line feed behind a carriage return is one column too far for its
line, and has no frame; an error has such a range when it stands behind a line end of this kind that
ends the text. Main statement: `lint_frames`.
-/
namespace SparqlMetrics

/-- Whether the snippet of a diagnostic frames the line that its range begins in. -/
def Diagnostic.Frames (s : Text) (d : Diagnostic) : Prop :=
  ∃ line content first second margin carets,
    SourceLine s d.range.byteStart d.range.first line ∧ Text.IsContent content line ∧
    Text.split [Byte.newline] d.snippet =
      [first, second, Text.ofNat d.range.first.line ++ utf8 " | " ++ content,
        margin ++ Byte.caret :: carets] ∧
    Byte.caret ∉ margin ∧
    margin.length = (Text.ofNat d.range.first.line).length + 3 + (d.range.first.column - 1)

namespace Text

variable {s line : Text} {offset : Nat}

theorem length_le_withoutReturn (line : Text) : line.length ≤ (withoutReturn line).length + 1 := by
  rw [withoutReturn]
  split
  · rw [List.length_dropLast]
    omega
  · omega

theorem withoutReturn_lt (line : Text) :
    (withoutReturn line).length < line.length ↔ line.getLast? = some Byte.carriageReturn := by
  rw [withoutReturn]
  split
  · next ends =>
    have nonempty := List.length_pos_iff.mpr (List.ne_nil_of_mem (List.mem_of_mem_getLast? ends))
    rw [List.length_dropLast]
    exact ⟨fun _ => ends, fun _ => by omega⟩
  · next other => exact ⟨fun less => absurd less (Nat.lt_irrefl _), fun ends => absurd ends other⟩

/-- A shown line ends in front of the column of an offset exactly where the offset is that of a line
feed behind a carriage return. -/
theorem withoutReturn_lt_iff (inside : offset < s.length) :
    (withoutReturn (s.lineAt offset)).length < (lastLine (s.take offset)).length ↔
      s.EndsLineAt offset := by
  obtain ⟨b, rest, behind⟩ : ∃ b rest, s.drop offset = b :: rest :=
    List.exists_cons_of_ne_nil (by simpa using inside)
  have next : s.take (offset + 1) = s.take offset ++ [b] := by
    rw [List.take_add, behind]
    rfl
  rw [EndsLineAt, next, endsLine_concat, lineAt, behind]
  by_cases newline : b = Byte.newline
  · subst newline
    have empty : firstLine (Byte.newline :: rest) = [] := rfl
    rw [empty, List.append_nil, withoutReturn_lt, getLast?_lastLine (by decide)]
    exact ⟨fun last => ⟨rfl, last⟩, fun h => h.2⟩
  · have front : firstLine (b :: rest) = b :: firstLine rest :=
      List.takeWhile_cons_of_pos (by simpa using newline)
    have length := length_le_withoutReturn (lastLine (s.take offset) ++ b :: firstLine rest)
    rw [List.length_append, List.length_cons] at length
    rw [front]
    exact ⟨fun less => by omega, fun h => absurd h.1 newline⟩

theorem not_mem_ofNat {b : Byte} (other : b.isDigit = false) (n : Nat) : b ∉ ofNat n :=
  fun member => absurd ((isDigits_ofNat n).2 _ member) (by simp [other])

theorem not_mem_spaces {b : Byte} (other : b ≠ Byte.space) (n : Nat) : b ∉ spaces n :=
  fun member => other (List.eq_of_mem_replicate member)

end Text

namespace SourceRange

variable {s : Text} {start stop : Nat} {range : SourceRange}

theorem lineText_eq (h : range.first = lineColumn s range.byteStart) :
    range.lineText s = Text.withoutReturn (s.lineAt range.byteStart) := by
  rw [lineText, h, lineColumn_eq, Nat.add_sub_cancel, Text.getD_split]

theorem isContent_lineText (h : range.first = lineColumn s range.byteStart) :
    Text.IsContent (range.lineText s) (s.lineAt range.byteStart) :=
  lineText_eq h ▸ Text.isContent_withoutReturn _

theorem caretWidth_pos (range : SourceRange) : 0 < range.caretWidth := by
  rw [caretWidth]
  split
  · next more =>
    have := of_decide_eq_true (Bool.and_eq_true_iff.mp more).2
    omega
  · exact Nat.one_pos

def header (range : SourceRange) : Text :=
  utf8 " --> line " ++ Text.ofNat range.first.line ++ utf8 ", col " ++
    Text.ofNat range.first.column

/-- The bar in front of a line of a frame, as wide as the line's number. -/
def bar (range : SourceRange) : Text :=
  Text.spaces (Text.ofNat range.first.line).length ++ utf8 " |"

/-- What stands in front of the carets of a frame. -/
def margin (range : SourceRange) : Text :=
  range.bar ++ Byte.space :: Text.spaces (range.first.column - 1)

theorem newline_not_mem_header (range : SourceRange) : Byte.newline ∉ range.header := by
  have constants : Byte.newline ∉ utf8 " --> line " ∧ Byte.newline ∉ utf8 ", col " := by decide
  simp only [header, List.mem_append, not_or]
  exact ⟨⟨⟨constants.1, Text.not_mem_ofNat (by decide) _⟩, constants.2⟩,
    Text.not_mem_ofNat (by decide) _⟩

theorem not_mem_bar {b : Byte} (space : b ≠ Byte.space) (pipe : b ≠ Byte.pipe)
    (range : SourceRange) : b ∉ range.bar := by
  have constant : utf8 " |" = [Byte.space, Byte.pipe] := rfl
  simp [bar, constant, Text.not_mem_spaces space, space, pipe]

theorem not_mem_margin {b : Byte} (space : b ≠ Byte.space) (pipe : b ≠ Byte.pipe)
    (range : SourceRange) : b ∉ range.margin := by
  simp [margin, not_mem_bar space pipe, Text.not_mem_spaces space, space]

theorem length_margin (range : SourceRange) : range.margin.length =
    (Text.ofNat range.first.line).length + 3 + (range.first.column - 1) := by
  have constant : (utf8 " |").length = 2 := rfl
  simp only [margin, bar, Text.spaces, List.length_append, List.length_cons, List.length_replicate,
    constant]
  omega

theorem frame_eq (nonempty : s ≠ []) (fits : ¬ (range.lineText s).length < range.first.column - 1) :
    range.frame s = range.header ++ Byte.newline :: (range.bar ++ Byte.newline ::
      (Text.ofNat range.first.line ++ utf8 " | " ++ range.lineText s ++ Byte.newline ::
        (range.margin ++ List.replicate range.caretWidth Byte.caret))) := by
  have empty : s.isEmpty = false := by simpa using nonempty
  have newline : utf8 "\n" = [Byte.newline] := rfl
  have bar : utf8 " |\n" = utf8 " |" ++ [Byte.newline] := rfl
  have space : utf8 " | " = utf8 " |" ++ [Byte.space] := rfl
  simp [frame, empty, fits, newline, bar, space, header, margin, SourceRange.bar]

/-- The lines of a frame. -/
theorem split_frame (nonempty : s ≠ []) (fits : ¬ (range.lineText s).length < range.first.column - 1)
    (free : Byte.newline ∉ range.lineText s) :
    Text.split [Byte.newline] (range.frame s) =
      [range.header, range.bar, Text.ofNat range.first.line ++ utf8 " | " ++ range.lineText s,
        range.margin ++ List.replicate range.caretWidth Byte.caret] := by
  have constant : Byte.newline ∉ utf8 " | " := by decide
  have third : Byte.newline ∉ Text.ofNat range.first.line ++ utf8 " | " ++ range.lineText s := by
    simp only [List.mem_append, not_or]
    exact ⟨⟨Text.not_mem_ofNat (by decide) _, constant⟩, free⟩
  have fourth : Byte.newline ∉ range.margin ++ List.replicate range.caretWidth Byte.caret := by
    rw [List.mem_append, not_or]
    exact ⟨not_mem_margin (by decide) (by decide) range,
      fun member => absurd (List.eq_of_mem_replicate member) (by decide)⟩
  rw [frame_eq nonempty fits, Text.split_line (newline_not_mem_header range),
    Text.split_line (not_mem_bar (by decide) (by decide) range), Text.split_line third,
    Text.split_of_free fourth]

/-- The frame of a range between offsets, or why it has none. -/
theorem frames_ofBytes {d : Diagnostic} (nonempty : s ≠ []) (range : d.range = ofBytes s start stop)
    (snippet : d.snippet = d.range.frame s) :
    d.range.byteStart = min start (s.length - 1) ∧
      if s.EndsLineAt d.range.byteStart then d.snippet = [] else d.Frames s := by
  have first : d.range.byteStart = min start (s.length - 1) ∧
      d.range.first = lineColumn s d.range.byteStart := by
    rw [range, ofBytes, if_neg (by simpa using nonempty)]
    exact ⟨rfl, rfl⟩
  have inside : d.range.byteStart < s.length := by
    have := List.length_pos_iff.mpr nonempty
    omega
  have line := lineText_eq first.2
  have column : d.range.first.column - 1 = (Text.lastLine (s.take d.range.byteStart)).length := by
    rw [first.2, lineColumn_eq, Nat.add_sub_cancel]
  have fits : (d.range.lineText s).length < d.range.first.column - 1 ↔
      s.EndsLineAt d.range.byteStart := by
    rw [line, column, Text.withoutReturn_lt_iff inside]
  refine ⟨first.1, ?_⟩
  split
  · next ends =>
    rw [snippet, frame, if_pos (by simp [fits.mpr ends])]
  · next clear =>
    have source := sourceLine_lineAt (Nat.le_of_lt inside)
    have content := isContent_lineText first.2
    have free : Byte.newline ∉ d.range.lineText s :=
      fun member => source.free (content.subset member)
    have carets : List.replicate d.range.caretWidth Byte.caret =
        Byte.caret :: List.replicate (d.range.caretWidth - 1) Byte.caret := by
      rw [← List.replicate_succ, Nat.sub_add_cancel (caretWidth_pos d.range)]
    have lines := split_frame nonempty (mt fits.mp clear) free
    rw [carets, line] at lines
    exact ⟨_, _, _, _, _, _, first.2 ▸ source, line ▸ content, snippet ▸ lines,
      not_mem_margin (by decide) (by decide) d.range, length_margin d.range⟩

end SourceRange

/-- The range of a report begins at its offset, and the snippet is its frame. -/
theorem Diagnostic.range_ofReport (s : Text) (report : ErrorReport) :
    ∃ stop, (ofReport s report).range = SourceRange.ofBytes s report.position stop ∧
      (ofReport s report).snippet = (ofReport s report).range.frame s := by
  rw [ofReport]
  split <;> exact ⟨_, rfl, rfl⟩

namespace QueryUnit

variable {s : Text} {e : ParseError}

/-- No error stands at the line feed behind a carriage return. -/
theorem endsLineAt_position (h : parse s = .error e) (ends : s.EndsLineAt e.position) :
    e.position = s.length := by
  obtain ⟨S, c, blames⟩ :=
    Grammar.queryUnit_error (Cursor.within_all s) (queryUnit_error_of_parse h)
  have place := Cursor.start_eq_length (s := s) blames.suffix blames.last
  cases blames.raises <;> exact place ends

theorem endsLineAt_start_iff (nonempty : s ≠ []) (h : parse s = .error e) :
    s.EndsLineAt (min e.position (s.length - 1)) ↔
      e.position = s.length ∧ [Byte.carriageReturn, Byte.newline] <:+ s := by
  have inside := (parse_outcome s).2.2 e h |>.inside
  have long := List.length_pos_iff.mpr nonempty
  rcases Nat.lt_or_eq_of_le inside with less | isEnd
  · rw [Nat.min_eq_left (by omega)]
    exact ⟨fun ends => absurd (endsLineAt_position h ends) (Nat.ne_of_lt less),
      fun ends => absurd ends.1 (Nat.ne_of_lt less)⟩
  · have whole : s.take (s.length - 1 + 1) = s := List.take_of_length_le (by omega)
    rw [Nat.min_eq_right (by omega), Text.EndsLineAt, whole]
    exact ⟨fun ends => ⟨isEnd, ends⟩, fun ends => ends.2⟩

end QueryUnit

/-- A text that is no query has one diagnostic. It frames the line where its range begins, unless
the text ends with a carriage return and a line feed and the error stands behind them; then there is
no frame. -/
theorem lint_frames (s : Text) (nonempty : s ≠ []) (e : ParseError)
    (h : QueryUnit.parse s = .error e) :
    ∃ d, lint s = [d] ∧ d.range.byteStart = min e.position (s.length - 1) ∧
      if e.position = s.length ∧ [Byte.carriageReturn, Byte.newline] <:+ s then d.snippet = []
      else d.Frames s := by
  obtain ⟨stop, range, snippet⟩ := Diagnostic.range_ofReport s e.report
  obtain ⟨start, frames⟩ := SourceRange.frames_ofBytes nonempty range snippet
  refine ⟨Diagnostic.ofReport s e.report, by rw [lint, h], start, ?_⟩
  rw [start] at frames
  simp only [← QueryUnit.endsLineAt_start_iff nonempty h]
  exact frames

/-- A text that ends too early, with a carriage return and a line feed. -/
def returnedText : Text := utf8 "ASK\r\n"

/-- A text with such line ends and an error in its second line. -/
def bracketText : Text := utf8 "ASK\r\n\x7b ?s ?p ]\r\n"

theorem lint_frames_returned : (∃ d, lint returnedText = [d] ∧ d.snippet = []) ∧
    ∃ d, lint bracketText = [d] ∧ d.range.byteStart = 13 ∧ d.Frames bracketText := by
  have early : QueryUnit.parse returnedText = .error ⟨.malformed (.expected .openWhere), 5⟩ :=
    QueryUnit.parse_eq_error (by decide +kernel)
  have bracket : QueryUnit.parse bracketText = .error ⟨.malformed (.expected .term), 13⟩ :=
    QueryUnit.parse_eq_error (by decide +kernel)
  obtain ⟨d, one, _, snippet⟩ := lint_frames returnedText (by decide) _ early
  obtain ⟨d', one', start, frames⟩ := lint_frames bracketText (by decide) _ bracket
  rw [if_pos (by decide)] at snippet
  rw [if_neg (by decide)] at frames
  exact ⟨⟨d, one, snippet⟩, d', one', start, frames⟩

end SparqlMetrics
