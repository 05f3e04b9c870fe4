import Mathlib.Data.List.Forall2
import Mathlib.Data.List.TakeWhile
import SparqlMetrics.Proofs.Dataset.Records

/-!
# Every line of a queries file is accounted for

A line that is not blank is a record or it is reported with its number, and nothing else is: the
records and the reports are in the order of their lines. Main statement: `Record.accounts_readAll`.
-/
namespace SparqlMetrics

namespace Text

def isBlank (s : Text) : Bool := s.all Byte.isSpace

theorem isBlank_of_dropWhile {s : Text} (h : s.dropWhile Byte.isSpace = []) :
    s.isBlank = true := by
  have whole : s.takeWhile Byte.isSpace ++ s.dropWhile Byte.isSpace = s :=
    List.takeWhile_append_dropWhile
  rw [h, List.append_nil] at whole
  rw [isBlank, ← whole]
  exact List.all_takeWhile

/-- What is left of a blank text is nothing. -/
theorem isEmpty_trim (s : Text) : (trim s).isEmpty = s.isBlank := by
  rw [Bool.eq_iff_iff, List.isEmpty_iff]
  constructor
  · intro h
    rw [trim, List.reverse_eq_nil_iff] at h
    have tail := isBlank_of_dropWhile h
    rw [isBlank, List.all_reverse] at tail
    rw [isBlank, ← List.takeWhile_append_dropWhile (p := Byte.isSpace) (l := s), List.all_append, tail,
      Bool.and_true]
    exact List.all_takeWhile
  · intro h
    have nothing : s.dropWhile Byte.isSpace = [] :=
      (List.dropWhile_eq_nil_iff ..).mpr (List.all_eq_true.mp h)
    rw [trim, nothing]
    rfl

variable {delimiter s : Text} {fields : List Text} {b : Byte}

theorem mem_join {separator : Text} (h : b ∈ join separator fields) :
    b ∈ separator ∨ ∃ field ∈ fields, b ∈ field := by
  induction fields with
  | nil => simp [join, List.intercalate] at h
  | cons field fields ih =>
      by_cases more : fields = []
      · subst more
        rw [join_singleton] at h
        exact .inr ⟨field, List.mem_cons_self, h⟩
      · rw [join_cons _ _ more, List.mem_append, List.mem_append] at h
        rcases h with inside | between | behind
        · exact .inr ⟨field, List.mem_cons_self, inside⟩
        · exact .inl between
        · refine (ih behind).imp_right ?_
          rintro ⟨other, member, inside⟩
          exact ⟨other, List.mem_cons_of_mem _ member, inside⟩

/-- The bytes of the fields are bytes of the text. -/
theorem HasFields.mem_of_mem (h : HasFields delimiter s fields) {field : Text}
    (member : field ∈ fields) (inside : b ∈ field) : b ∈ s := by
  induction h with
  | last => exact List.mem_singleton.mp member ▸ inside
  | more _ _ ih =>
      rcases List.mem_cons.mp member with rfl | member
      · exact List.mem_append_left _ inside
      · exact List.mem_append_right _ (List.mem_append_right _ (ih member))

/-- A replacement puts in no bytes but its own. -/
theorem mem_replaceAll {pattern replacement : Text} (ne : pattern ≠ [])
    (h : b ∈ replaceAll pattern replacement s) : b ∈ replacement ∨ b ∈ s := by
  rw [replaceAll_eq_join] at h
  refine (mem_join h).imp_right ?_
  rintro ⟨field, member, inside⟩
  exact (hasFields_split ne s).mem_of_mem member inside

end Text

namespace Record

/-- The contents that are not blank, with the numbers of their lines from a given one on. -/
def filledFrom (number : Nat) (contents : List Text) : List (Text × Nat) :=
  (contents.zipIdx number).filter fun line => !line.1.isBlank

/-- The record of a line. -/
def accepted? (line : Text × Nat) : Option Record :=
  match fill {} line.1 with
  | (r, none) => some r
  | (_, some _) => none

/-- The report on a line that is no record. -/
def rejected? (line : Text × Nat) : Option Text :=
  match fill {} line.1 with
  | (_, none) => none
  | (_, some e) => some (utf8 "line " ++ Text.ofNat line.2 ++ utf8 ": " ++ e.message)

/-- The records and the reports of what lines show, with no line left out or counted twice. -/
structure Accounts (contents : List Text) (records : List Record) (errors : List Text) : Prop where
  accepted : records = (filledFrom 1 contents).filterMap accepted?
  rejected : errors = (filledFrom 1 contents).filterMap rejected?
  total : records.length + errors.length = contents.countP (!·.isBlank)
  acceptable : ∀ r ∈ records, r.Acceptable
  oneLine : ∀ r ∈ records, Byte.newline ∉ r.text

section Lines

variable {number : Nat} {content line : Text} {contents lines : List Text} {r : Record}

theorem filledFrom_cons : filledFrom number (content :: contents) =
    if content.isBlank then filledFrom (number + 1) contents
    else (content, number) :: filledFrom (number + 1) contents := by
  rw [filledFrom, List.zipIdx_cons, List.filter_cons]
  cases content.isBlank <;> rfl

/-- Reading lines takes the records and the reports of those that do not show as blank. -/
theorem readLines_eq (number : Nat) (lines : List Text) :
    readLines number lines =
      ((filledFrom number (lines.map Text.withoutReturn)).filterMap accepted?,
        (filledFrom number (lines.map Text.withoutReturn)).filterMap rejected?) := by
  induction lines generalizing number with
  | nil => rfl
  | cons line rest ih =>
      simp only [readLines, ih, List.map_cons, filledFrom_cons, Text.isEmpty_trim]
      cases (Text.withoutReturn line).isBlank with
      | true => rfl
      | false =>
          rw [if_neg Bool.false_ne_true, if_neg Bool.false_ne_true, List.filterMap_cons,
            List.filterMap_cons, accepted?, rejected?, read]
          rcases fill {} (Text.withoutReturn line) with ⟨r, _ | e⟩ <;> rfl

/-- A line is accepted or rejected, and never both. -/
theorem length_filterMap (lines : List (Text × Nat)) :
    (lines.filterMap accepted?).length + (lines.filterMap rejected?).length = lines.length := by
  induction lines with
  | nil => rfl
  | cons line rest ih =>
      rw [List.filterMap_cons, List.filterMap_cons, accepted?, rejected?, List.length_cons, ← ih]
      rcases fill {} line.1 with ⟨r, _ | e⟩
      · exact Nat.add_right_comm _ _ _
      · exact (Nat.add_assoc _ _ _).symm

theorem length_filledFrom (number : Nat) (contents : List Text) :
    (filledFrom number contents).length = contents.countP (!·.isBlank) := by
  induction contents generalizing number with
  | nil => rfl
  | cons content rest ih =>
      rw [filledFrom_cons, List.countP_cons]
      cases content.isBlank with
      | true => exact ih _
      | false => exact congrArg (· + 1) (ih _)

theorem exists_content_of_accepted (h : r ∈ (filledFrom number contents).filterMap accepted?) :
    ∃ content ∈ contents, fill {} content = (r, none) := by
  obtain ⟨⟨content, place⟩, filled, accepted⟩ := List.mem_filterMap.mp h
  have listed : content ∈ contents :=
    (List.mem_zipIdx (List.mem_filter.mp filled).1).2.2 ▸ List.getElem_mem _
  refine ⟨content, listed, ?_⟩
  simp only [accepted?] at accepted
  split at accepted
  · next read => rw [read, Option.some.inj accepted]
  · cases accepted

/-- What a queries file is read as can be written into a statement. -/
theorem safe_of_mem_readAll {s : Text} (h : r ∈ (readAll s).1) : r.Safe := by
  rw [readAll, readLines_eq] at h
  obtain ⟨_, -, read⟩ := exists_content_of_accepted h
  obtain ⟨_, _, _, _, acceptable⟩ := exists_fields_of_fill read
  exact acceptable.toSafe

/-- A query text has no byte that its line does not have, the spelling of disjunctions apart. -/
theorem newline_not_mem_text (free : Byte.newline ∉ line) (h : fill {} line = (r, none)) :
    Byte.newline ∉ r.text := by
  obtain ⟨front, query, fields, rfl, -⟩ := exists_fields_of_fill h
  intro inside
  have ne : utf8 " OR " ≠ [] := by decide
  rcases Text.mem_replaceAll ne inside with own | inside
  · exact absurd own (by decide)
  · have split : Text.HasFields fieldSeparator line (front ++ [query]) :=
      (Text.hasFields_iff (by decide)).mpr fields
    exact free (split.mem_of_mem (List.mem_append_right _ (List.mem_singleton_self query)) inside)

end Lines

/-- Every line of a queries file that does not show as blank gives its record, or else its number and
what is wrong with it, in the order of the lines. Every record has an IRI and a query, is written
without harm, and is of one line. -/
theorem accounts_readAll (s : Text) : ∃ lines contents, lines ≠ [] ∧
    (∀ line ∈ lines, Byte.newline ∉ line) ∧ Text.join [Byte.newline] lines = s ∧
    List.Forall₂ Text.IsContent contents lines ∧
    Accounts contents (readAll s).1 (readAll s).2 := by
  have fields : Text.HasFields [Byte.newline] s _ := Text.hasFields_split (by decide) s
  have free : ∀ line ∈ Text.split [Byte.newline] s, Byte.newline ∉ line := by
    intro line member inside
    exact fields.not_infix (by decide) line member ((List.singleton_infix_iff _ _).mpr inside)
  have shown : List.Forall₂ Text.IsContent
      ((Text.split [Byte.newline] s).map Text.withoutReturn) (Text.split [Byte.newline] s) :=
    List.forall₂_map_left_iff.mpr
      (List.forall₂_same.mpr fun line _ => Text.isContent_withoutReturn line)
  refine ⟨Text.split [Byte.newline] s, _, fields.ne_nil, free, fields.join_eq, shown, ?_⟩
  rw [readAll, readLines_eq]
  refine ⟨rfl, rfl, (length_filterMap _).trans (length_filledFrom 1 _), ?_, ?_⟩
  · intro r member
    obtain ⟨content, -, read⟩ := exists_content_of_accepted member
    obtain ⟨_, _, _, _, acceptable⟩ := exists_fields_of_fill read
    exact acceptable
  · intro r member
    obtain ⟨content, there, read⟩ := exists_content_of_accepted member
    obtain ⟨line, listed, rfl⟩ := List.mem_map.mp there
    refine newline_not_mem_text (fun inside => ?_) read
    exact free line listed ((Text.isContent_withoutReturn line).subset inside)

end Record

end SparqlMetrics
