import SparqlMetrics.Proofs.Normal.Chunks
import SparqlMetrics.Proofs.Text.Fields

/-!
# Collapsed lines

To collapse a text is to trim its lines, to leave out the blank ones and to put the others behind each
other with single spaces. In a text in chunks no word spans lines, so what is cut off is white and
the words are kept (`Chunk.exists_collapseLines`).
-/
namespace SparqlMetrics.Chunk

open SparqlMetrics.Normal Lexeme

variable {ns : Namespaces} {cs : List Chunk}

def isGap : Chunk → Bool
  | .gap _ => true
  | .token _ _ _ => false

def trim (cs : List Chunk) : List Chunk := (cs.dropWhile isGap).rdropWhile isGap

theorem lexemes_of_gaps (h : ∀ c ∈ cs, isGap c = true) : lexemes cs = [] := by
  refine List.filterMap_eq_nil_iff.mpr fun c member => ?_
  cases c with
  | gap b => rfl
  | token word l shuns => exact absurd (h _ member) (by simp [isGap])

/-- What is cut off is white. -/
theorem exists_gaps (cs : List Chunk) : ∃ front back, cs = front ++ (trim cs ++ back) ∧
    lexemes front = [] ∧ lexemes back = [] := by
  refine ⟨cs.takeWhile isGap, (cs.dropWhile isGap).rtakeWhile isGap, ?_, ?_, ?_⟩
  · rw [trim, List.rdropWhile_append_rtakeWhile, List.takeWhile_append_dropWhile]
  · exact lexemes_of_gaps (List.all_eq_true.mp List.all_takeWhile)
  · exact lexemes_of_gaps fun c => List.mem_rtakeWhile_imp

theorem lexemes_trim (cs : List Chunk) : lexemes (trim cs) = lexemes cs := by
  obtain ⟨front, back, cut, noFront, noBack⟩ := exists_gaps cs
  conv_rhs => rw [cut, lexemes_append, lexemes_append, noFront, noBack]
  simp

theorem laid_trim (h : Laid ns cs) : Laid ns (trim cs) := by
  obtain ⟨front, back, cut, _⟩ := exists_gaps cs
  rw [cut] at h
  exact h.right.left

theorem newline_not_mem_trim (free : Byte.newline ∉ texts cs) : Byte.newline ∉ texts (trim cs) := by
  obtain ⟨front, back, cut, _⟩ := exists_gaps cs
  rw [cut] at free
  simp only [texts_append, List.mem_append, not_or] at free
  exact free.2.1

theorem texts_dropWhile (h : Laid ns cs) :
    texts (cs.dropWhile isGap) = (texts cs).dropWhile Byte.isSpace := by
  induction cs with
  | nil => rfl
  | cons c cs ih =>
      cases c with
      | gap b =>
          rw [List.dropWhile_cons_of_pos rfl, ih h.2]
          simp [text, h.1]
      | token word l shuns =>
          obtain ⟨b, more, rfl⟩ := List.exists_cons_of_ne_nil h.1.ne_nil
          have solid := (Bool.or_eq_false_iff.mp (h.1.solid b (.inl rfl))).1
          rw [List.dropWhile_cons_of_neg (by simp [isGap])]
          simp [text, solid]

theorem texts_rdropWhile (h : Laid ns cs) :
    texts (cs.rdropWhile isGap) = (texts cs).rdropWhile Byte.isSpace := by
  induction cs using List.reverseRecOn with
  | nil => rfl
  | append_singleton cs c ih =>
      have last := h.right
      cases c with
      | gap b =>
          have white : texts (cs ++ [.gap b]) = texts cs ++ [b] := texts_append cs [.gap b]
          rw [List.rdropWhile_concat_pos _ _ _ rfl, ih h.left, white,
            List.rdropWhile_concat_pos _ _ _ last.1]
      | token word l shuns =>
          have kept : (texts (cs ++ [.token word l shuns])).rdropWhile Byte.isSpace =
              texts (cs ++ [.token word l shuns]) := by
            refine List.rdropWhile_eq_self_iff.mpr fun nonempty => ?_
            have ends : (texts (cs ++ [.token word l shuns])).getLast? = word.getLast? := by
              simp [text, texts, List.getLast?_append_of_ne_nil _ last.1.ne_nil]
            rw [List.getLast?_eq_some_getLast nonempty] at ends
            have solid := last.1.solid _ (.inr ends.symm)
            simpa using (Bool.or_eq_false_iff.mp solid).1
          rw [kept, List.rdropWhile_concat_neg _ _ _ (by simp [isGap])]

theorem texts_trim (h : Laid ns cs) : texts (trim cs) = Text.trim (texts cs) := by
  have behind : Laid ns (cs.dropWhile isGap) := by
    rw [← List.takeWhile_append_dropWhile (p := isGap) (l := cs)] at h
    exact h.right
  rw [trim, texts_rdropWhile behind, texts_dropWhile h]
  rfl

theorem isEmpty_texts (h : Laid ns cs) : (texts cs).isEmpty = cs.isEmpty := by
  cases cs with
  | nil => rfl
  | cons c cs =>
      cases c with
      | gap b => rfl
      | token word l shuns =>
          obtain ⟨b, more, rfl⟩ := List.exists_cons_of_ne_nil h.1.ne_nil
          rfl

/-- The lines of a text as they are collapsed: trimmed, and without blank ones. -/
def solidLines (s : Text) : List Text :=
  ((Text.split [Byte.newline] s).map Text.trim).filter (!·.isEmpty)

/-- The lines of a text in chunks are in chunks and hold its lexemes. -/
structure Lines (ns : Namespaces) (cs : List Chunk) (ls : List (List Chunk)) : Prop where
  texts_eq : solidLines (texts cs) = ls.map texts
  laid : ∀ l ∈ ls, Laid ns l
  oneLine : ∀ l ∈ ls, Byte.newline ∉ texts l
  lexemes_eq : ls.flatMap lexemes = lexemes cs

theorem lines_of_free (h : Laid ns cs) (free : Byte.newline ∉ texts cs) :
    Lines ns cs ([trim cs].filter (!·.isEmpty)) where
  texts_eq := by
    rw [solidLines, Text.split_of_free free, List.map_singleton, ← texts_trim h, List.filter_singleton,
      List.filter_singleton, isEmpty_texts (laid_trim h)]
    cases (trim cs).isEmpty <;> rfl
  laid l member := by
    rw [List.mem_singleton.mp (List.mem_of_mem_filter member)]
    exact laid_trim h
  oneLine l member := by
    rw [List.mem_singleton.mp (List.mem_of_mem_filter member)]
    exact newline_not_mem_trim free
  lexemes_eq := by
    rw [← lexemes_trim cs]
    cases found : trim cs with
    | nil => rfl
    | cons c more => simp

theorem Lines.cons {line : List Chunk} {ls : List (List Chunk)} (h : Laid ns line)
    (free : Byte.newline ∉ texts line) (rest : Lines ns cs ls) :
    Lines ns (line ++ .gap Byte.newline :: cs) ([trim line].filter (!·.isEmpty) ++ ls) := by
  have first := lines_of_free h free
  refine ⟨?_, ?_, ?_, ?_⟩
  · have cut : solidLines (texts (line ++ .gap Byte.newline :: cs)) =
        solidLines (texts line) ++ solidLines (texts cs) := by
      have whole : texts (line ++ .gap Byte.newline :: cs) =
          texts line ++ Byte.newline :: texts cs := texts_append line _
      rw [whole, solidLines, Text.split_line free, List.map_cons, ← List.singleton_append,
        List.filter_append, solidLines, Text.split_of_free free]
      rfl
    rw [cut, first.texts_eq, rest.texts_eq, List.map_append]
  · exact List.forall_mem_append.mpr ⟨first.laid, rest.laid⟩
  · exact List.forall_mem_append.mpr ⟨first.oneLine, rest.oneLine⟩
  · rw [List.flatMap_append, first.lexemes_eq, rest.lexemes_eq, lexemes_append]
    rfl

/-- A text in chunks is in lines, behind the part of a line that is known. -/
theorem exists_lines {line : List Chunk} (free : Byte.newline ∉ texts line)
    (h : Laid ns (line ++ cs)) : ∃ ls, Lines ns (line ++ cs) ls := by
  induction cs generalizing line with
  | nil =>
      rw [List.append_nil] at h ⊢
      exact ⟨_, lines_of_free h free⟩
  | cons c cs ih =>
      by_cases ends : c = .gap Byte.newline
      · subst ends
        obtain ⟨ls, rest⟩ := @ih [] List.not_mem_nil h.right.2
        exact ⟨_, rest.cons h.left free⟩
      · have other : Byte.newline ∉ c.text := by
          cases c with
          | gap b =>
              intro member
              exact ends (congrArg Chunk.gap (List.mem_singleton.mp member).symm)
          | token word l shuns => exact h.right.1.oneLine
        rw [List.append_cons] at h ⊢
        refine ih (fun member => ?_) h
        rw [texts_append] at member
        rcases List.mem_append.mp member with member | member
        · exact free member
        · exact other (by simpa [texts] using member)

theorem stopsAt_space {p : Byte → Bool} {s : Text} (h : StopsAt p s) (admits : p Byte.space = false)
    (t : Text) : StopsAt p (s ++ Byte.space :: t) := by
  cases s with
  | nil => exact stopsAt_cons admits
  | cons b s => exact fun c same => h c same

/-- Texts in chunks may stand behind each other with a space between them. -/
theorem Laid.join {ds : List Chunk} (h : Laid ns cs) (hd : Laid ns ds) :
    Laid ns (cs ++ .gap Byte.space :: ds) := by
  induction cs with
  | nil => exact ⟨by decide, hd⟩
  | cons c cs ih =>
      cases c with
      | gap b => exact ⟨h.1, ih h.2⟩
      | token word l shuns =>
          obtain ⟨written, stop, laid⟩ := h
          have behind := stopsAt_space stop written.admitsSpace (texts ds)
          exact ⟨written, texts_append cs _ ▸ behind, ih laid⟩

/-- Chunks that are laid, with the text and the lexemes of some lines. -/
structure Joins (ns : Namespaces) (ls : List (List Chunk)) (cs : List Chunk) : Prop where
  laid : Laid ns cs
  texts_eq : texts cs = Text.join [Byte.space] (ls.map texts)
  lexemes_eq : lexemes cs = ls.flatMap lexemes
  oneLine : Byte.newline ∉ texts cs

theorem exists_joins {ls : List (List Chunk)} (laid : ∀ l ∈ ls, Laid ns l)
    (oneLine : ∀ l ∈ ls, Byte.newline ∉ texts l) : ∃ cs, Joins ns ls cs := by
  induction ls with
  | nil => exact ⟨[], trivial, rfl, rfl, List.not_mem_nil⟩
  | cons l ls ih =>
      obtain ⟨cs, rest⟩ := ih (fun m member => laid m (List.mem_cons_of_mem _ member))
        fun m member => oneLine m (List.mem_cons_of_mem _ member)
      have first := laid l List.mem_cons_self
      have free := oneLine l List.mem_cons_self
      cases ls with
      | nil => exact ⟨l, first, by simp [Text.join], by simp, free⟩
      | cons m ls =>
          have other : Byte.newline ≠ Byte.space := by decide
          refine ⟨l ++ .gap Byte.space :: cs, first.join rest.laid, ?_, ?_, ?_⟩
          · have behind : texts (l ++ .gap Byte.space :: cs) = texts l ++ Byte.space :: texts cs :=
              texts_append l _
            rw [behind, rest.texts_eq]
            simp [Text.join, List.intercalate_cons_cons]
          · rw [List.flatMap_cons, ← rest.lexemes_eq, lexemes_append]
            rfl
          · simp [text, free, rest.oneLine, other]

/-- A text in chunks that is collapsed is on one line, in chunks, and has the lexemes it had. -/
theorem exists_collapseLines (h : Laid ns cs) : ∃ ds, Laid ns ds ∧
    texts ds = Text.collapseLines (texts cs) ∧ lexemes ds = lexemes cs ∧ Byte.newline ∉ texts ds := by
  obtain ⟨ls, lines⟩ := @exists_lines _ _ [] List.not_mem_nil h
  obtain ⟨ds, joins⟩ := exists_joins lines.laid lines.oneLine
  refine ⟨ds, joins.laid, ?_, joins.lexemes_eq.trans lines.lexemes_eq, joins.oneLine⟩
  rw [joins.texts_eq, ← lines.texts_eq]
  rfl

end SparqlMetrics.Chunk
