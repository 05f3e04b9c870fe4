import SparqlMetrics.Diagnostic.Basic
import SparqlMetrics.Proofs.Grammar.NestsQueries
import SparqlMetrics.Proofs.Outcome

/-!
# The group that a missing brace belongs to

Where the end of a group is missing, the tokens in front of the error leave braces open, the
innermost one being that of the group. The note of the diagnostic is on the last opening brace among
the bytes up to the error. The two are one where no such byte stands between them, in a comment,
in a string, in a group that has been closed, or at the error itself. Main statement:
`lint_openGroup`.
-/
namespace SparqlMetrics

namespace Text

/-- The offsets of the braces that are open in front of an offset, the innermost one first: the
tokens that begin there are paired up from the left. -/
def openBraces (s : Text) (offset : Nat) : List Nat :=
  ((TokenStream.ofText s).tokens.takeWhile (·.start < offset)).foldl Token.nest []

/-- Whether an offset is that of the last opening brace up to another one. -/
structure IsLastBrace (s : Text) (offset place : Nat) : Prop where
  brace : s[place]? = some Byte.lbrace
  le : place ≤ offset
  last : ∀ i, place < i → i ≤ offset → s[i]? ≠ some Byte.lbrace

variable {s : Text} {offset place : Nat}

theorem IsLastBrace.le_of_brace (h : s.IsLastBrace offset place) {i : Nat}
    (brace : s[i]? = some Byte.lbrace) (le : i ≤ offset) : i ≤ place := by
  by_contra behind
  exact h.last i (by omega) le brace

theorem IsLastBrace.unique {other : Nat} (h : s.IsLastBrace offset place)
    (h' : s.IsLastBrace offset other) : place = other :=
  Nat.le_antisymm (h'.le_of_brace h.brace h.le) (h.le_of_brace h'.brace h'.le)

end Text

namespace Cursor

variable {s : Text} {w : List Token} {d : Cursor}

/-- The tokens that are passed over begin in front of the one behind them, unless that is a
fault. -/
theorem start_lt_of_reaches (reaches : (ofStream (TokenStream.ofText s)).Reaches w d)
    (real : ∀ fault, d.token.lexeme ≠ .invalid fault) : ∀ t ∈ w, t.start < d.token.start := by
  have tokens : (TokenStream.ofText s).tokens = w ++ d.ahead := reaches.ahead
  intro t member
  have placed := TokenStream.placed_of_mem s t (tokens ▸ List.mem_append_left _ member)
  cases ahead : d.ahead with
  | nil =>
      have here : d.token = (TokenStream.ofText s).last := by
        rw [Cursor.token, ahead, List.headD_nil, reaches.last]
        rfl
      obtain last | ⟨_, _, _, _, last⟩ := TokenStream.last_cases s
      · rw [here, last]
        exact Nat.lt_of_lt_of_le placed.nonempty placed.inside
      · exact absurd (by rw [here, last]) (real _)
  | cons u rest =>
      have here : d.token = u := by rw [Cursor.token, ahead, List.headD_cons]
      have sorted := TokenStream.pairwise_stop s
      rw [tokens, ahead, List.pairwise_append] at sorted
      rw [here]
      exact Nat.lt_of_lt_of_le placed.nonempty (sorted.2.2 t member u List.mem_cons_self)

/-- They are the tokens that begin in front of it. -/
theorem takeWhile_of_reaches (reaches : (ofStream (TokenStream.ofText s)).Reaches w d)
    (real : ∀ fault, d.token.lexeme ≠ .invalid fault) :
    (TokenStream.ofText s).tokens.takeWhile (·.start < d.token.start) = w := by
  have tokens : (TokenStream.ofText s).tokens = w ++ d.ahead := reaches.ahead
  have behind : d.ahead.takeWhile (·.start < d.token.start) = [] := by
    cases ahead : d.ahead with
    | nil => rfl
    | cons u rest =>
        have here : d.token = u := by rw [Cursor.token, ahead, List.headD_cons]
        rw [here, List.takeWhile_cons_of_neg (by simp)]
  rw [tokens, List.takeWhile_append_of_pos fun t member => ?_, behind, List.append_nil]
  exact decide_eq_true (start_lt_of_reaches reaches real t member)

end Cursor

namespace QueryUnit

variable {s : Text} {e : ParseError}

/-- Where the end of a group is missing, a brace is open. -/
theorem openBraces_position (h : parse s = .error e)
    (missing : e.failure = .malformed (.expected .closeGroup)) :
    ∃ brace outer, s.openBraces e.position = brace :: outer ∧ s[brace]? = some Byte.lbrace ∧
      brace < e.position := by
  have nests := Grammar.nests_queryUnit _ (Cursor.at_ofStream s).isTerminal trivial
  rw [queryUnit_error_of_parse h] at nests
  obtain ⟨_, d, reaches, ⟨outer, brace, inner, rfl, opens, balanced⟩, place, real⟩ := nests missing
  have front := Cursor.takeWhile_of_reaches reaches real
  rw [← place] at front
  have member : brace ∈ outer ++ brace :: inner := by simp
  have placed : brace.Placed s := by
    refine TokenStream.placed_of_mem s brace ?_
    exact (List.takeWhile_prefix _).subset (front ▸ member)
  have stands : s[brace.start]? = some Byte.lbrace := by
    obtain ⟨rest, ahead⟩ := placed.mark opens
    rw [← Nat.add_zero brace.start, ← List.getElem?_drop, ← ahead]
    rfl
  refine ⟨brace.start, outer.foldl Token.nest [], ?_, stands, ?_⟩
  · rw [Text.openBraces, front, List.foldl_append, List.foldl_cons, Token.nest_lbrace opens,
      balanced]
  · rw [place]
    exact Cursor.start_lt_of_reaches reaches real brace member

end QueryUnit

/-! ## Messages -/

def closeGroupMessage : Text := utf8 "Expected \x7d to close group graph pattern"

theorem LexicalFault.message_ne (fault : LexicalFault) : fault.message ≠ closeGroupMessage := by
  have opens : ∀ front : Text, front <+: fault.message → ¬ front <+: closeGroupMessage →
      fault.message ≠ closeGroupMessage := fun _ opens apart same => apart (same ▸ opens)
  cases fault with
  | unexpectedByte => exact opens _ (List.prefix_append _ _) (by decide)
  | badEscape => exact opens _ (List.prefix_append _ _) (by decide)
  | _ => decide

/-- No other cause is worded like that of a missing end of a group. -/
theorem Malformed.eq_of_message {cause : Malformed} (h : cause.message = closeGroupMessage) :
    cause = .expected .closeGroup := by
  have opens : ∀ front : Text, front <+: cause.message → front <+: closeGroupMessage :=
    fun _ opens => h ▸ opens
  cases cause with
  | lexical fault => exact absurd h fault.message_ne
  | expected e => cases e <;> first | rfl | exact absurd h (by decide)
  | iriAfterLabel => exact absurd (opens (utf8 "Expected IRI") ⟨_, rfl⟩) (by decide)
  | trailingToken => exact absurd (opens (utf8 "Unexpected") ⟨_, rfl⟩) (by decide)
  | unexpectedInGroup => exact absurd (opens (utf8 "Unexpected") ⟨_, rfl⟩) (by decide)
  | unknownIdentifier => exact absurd (opens (utf8 "Unknown") ⟨_, rfl⟩) (by decide)
  | duplicateClause clause => cases clause <;> exact absurd h (by decide)
  | numberTooLarge clause => cases clause <;> exact absurd h (by decide)
  | rowWidth => exact absurd (opens (utf8 "VALUES") ⟨_, rfl⟩) (by decide)
  | _ => exact absurd h (by decide)

theorem ParseFailure.eq_of_message {f : ParseFailure} (h : f.message = closeGroupMessage) :
    f = .malformed (.expected .closeGroup) := by
  have opens : ∀ front : Text, front <+: f.message → front <+: closeGroupMessage :=
    fun _ opens => h ▸ opens
  cases f with
  | malformed cause => rw [Malformed.eq_of_message h]
  | undeclaredPrefix => exact absurd (opens (utf8 "Undeclared") ⟨_, rfl⟩) (by decide)
  | missingBase => exact absurd (opens (utf8 "Relative") ⟨_, rfl⟩) (by decide)

/-! ## The note -/

namespace Diagnostic

variable {s front behind : Text} {offset i : Nat}

/-- The last opening brace of a cut text is that of the cut where none stands behind it. -/
theorem isLastBrace_of_cut (cut : s.take (offset + 1) = front ++ Byte.lbrace :: behind)
    (free : Byte.lbrace ∉ behind) : s.IsLastBrace offset front.length := by
  have bytes : ∀ j, j ≤ offset → s[j]? = (front ++ Byte.lbrace :: behind)[j]? := by
    intro j inside
    rw [← cut, List.getElem?_take_of_lt (by omega)]
  have inside : front.length ≤ offset := by
    have length := congrArg List.length cut
    rw [List.length_take, List.length_append, List.length_cons] at length
    omega
  refine ⟨?_, inside, fun j above below same => ?_⟩
  · rw [bytes _ inside, List.getElem?_append_right (Nat.le_refl _), Nat.sub_self]
    rfl
  · obtain ⟨k, rfl⟩ := Nat.exists_eq_add_of_lt above
    rw [bytes _ below, List.getElem?_append_right (by omega),
      show front.length + k + 1 - front.length = k + 1 by omega, List.getElem?_cons_succ] at same
    exact free (List.mem_of_getElem? same)

/-- That is the one that the search finds. -/
theorem lastBrace?_of_cut (cut : s.take (offset + 1) = front ++ Byte.lbrace :: behind)
    (free : Byte.lbrace ∉ behind) : lastBrace? s offset = some front.length := by
  have skipped : ∀ b ∈ behind.reverse, (b != Byte.lbrace) = true := fun b inside =>
    bne_iff_ne.mpr fun same => free (List.mem_reverse.mp (same ▸ inside))
  have kept : (s.take (offset + 1)).reverse.dropWhile (· != Byte.lbrace) =
      Byte.lbrace :: front.reverse := by
    rw [cut, List.reverse_append, List.reverse_cons, List.append_assoc,
      List.dropWhile_append_of_pos skipped, List.singleton_append,
      List.dropWhile_cons_of_neg (by simp)]
  simp [lastBrace?, kept]

/-- The search finds the last opening brace up to an offset where there is one. -/
theorem exists_lastBrace? (brace : s[i]? = some Byte.lbrace) (le : i ≤ offset) :
    ∃ place, lastBrace? s offset = some place ∧ s.IsLastBrace offset place := by
  have member : Byte.lbrace ∈ (s.take (offset + 1)).reverse := by
    refine List.mem_reverse.mpr (List.mem_of_getElem? (i := i) ?_)
    rw [List.getElem?_take_of_lt (by omega), brace]
  obtain ⟨behind, front, split, free⟩ := List.eq_append_cons_of_mem member
  have cut : s.take (offset + 1) = front.reverse ++ Byte.lbrace :: behind.reverse := by
    rw [← List.reverse_reverse (s.take (offset + 1)), split]
    simp
  have free' : Byte.lbrace ∉ behind.reverse := fun inside => free (List.mem_reverse.mp inside)
  exact ⟨_, lastBrace?_of_cut cut free', isLastBrace_of_cut cut free'⟩

/-- The note on a missing end of a group is on the last opening brace up to the error. -/
theorem openedHere_eq (report : ErrorReport) (missing : report.message = closeGroupMessage)
    (brace : s[i]? = some Byte.lbrace) (le : i ≤ report.position) :
    ∃ place, openedHere s report = [place] ∧ place.message = utf8 "group opened here" ∧
      s.IsLastBrace report.position place.range.byteStart := by
  obtain ⟨start, found, last⟩ := exists_lastBrace? brace le
  have inside : start < s.length := (List.getElem?_eq_some_iff.mp last.brace).1
  have begins : (SourceRange.ofBytes s start (start + 1)).byteStart = start := by
    rw [SourceRange.ofBytes, if_neg (by simpa using List.ne_nil_of_length_pos (by omega))]
    exact Nat.min_eq_left (by omega)
  have asks : mentions report.message "expected \x7d" = true := by
    rw [missing]
    decide
  refine ⟨⟨_, SourceRange.ofBytes s start (start + 1)⟩, ?_, rfl, begins.symm ▸ last⟩
  rw [openedHere, if_pos asks, found]
  rfl

end Diagnostic

/-- A text in which the end of a group is missing has one diagnostic. Its note is on the last
opening brace up to the error, which opens the innermost group that is still open exactly where no
byte of this kind stands behind the brace of that group. -/
theorem lint_openGroup (s : Text) (e : ParseError) (h : QueryUnit.parse s = .error e)
    (missing : e.failure.message = closeGroupMessage) :
    ∃ d place brace outer, lint s = [d] ∧ d.related = [place] ∧
      place.message = utf8 "group opened here" ∧
      s.openBraces e.position = brace :: outer ∧ s[brace]? = some Byte.lbrace ∧
      brace < e.position ∧ s.IsLastBrace e.position place.range.byteStart ∧
      (place.range.byteStart = brace ↔
        ∀ i, brace < i → i ≤ e.position → s[i]? ≠ some Byte.lbrace) := by
  have failure := ParseFailure.eq_of_message missing
  obtain ⟨brace, outer, opened, stands, before⟩ := QueryUnit.openBraces_position h failure
  obtain ⟨place, related, note, last⟩ :=
    Diagnostic.openedHere_eq e.report missing stands (Nat.le_of_lt before)
  have kind : e.report.kind = .malformed := by rw [ParseError.report, failure]; rfl
  refine ⟨Diagnostic.ofReport s e.report, place, brace, outer, by rw [lint, h], ?_, note, opened,
    stands, before, last, fun same => same ▸ last.last, fun unopened => ?_⟩
  · rw [Diagnostic.ofReport, kind]
    exact related
  · by_contra apart
    have behind := last.le_of_brace stands (Nat.le_of_lt before)
    exact unopened _ (by omega) last.le last.brace

/-- A text whose outer group is not closed, the group in it being closed. -/
def closedInside : Text := utf8 "ASK \x7b \x7b ?s ?p ?o \x7d "

theorem lint_openGroup_closedInside : ∃ d place, lint closedInside = [d] ∧ d.related = [place] ∧
    place.range.byteStart = 6 ∧ closedInside.openBraces 19 = [4] := by
  have early : QueryUnit.parse closedInside = .error ⟨.malformed (.expected .closeGroup), 19⟩ :=
    QueryUnit.parse_eq_error (by decide +kernel)
  obtain ⟨d, place, _, _, one, related, -, -, -, -, last, -⟩ :=
    lint_openGroup closedInside _ early rfl
  have free : ∀ i < 20, 6 < i → closedInside[i]? ≠ some Byte.lbrace := by decide
  have inner : closedInside.IsLastBrace 19 6 :=
    ⟨by decide, by decide, fun i above below => free i (Nat.lt_succ_of_le below) above⟩
  have outside : closedInside.openBraces 19 = [4] := by decide +kernel
  exact ⟨d, place, one, related, last.unique inner, outside⟩

end SparqlMetrics
