import Mathlib.Data.List.Infix
import SparqlMetrics.Text.Search

/-!
# The fields of a text

A search for a delimiter goes from left to right and goes on behind each occurrence it finds, so
which occurrences count is a matter of order where the delimiter overlaps itself. `HasFields` says
what such a search leaves between them. Main statements: `hasFields_iff`, splitting finds these
fields; `replaceAll_eq_join`, replacing joins them again; `replaceAll_agrees`, what follows for
lengths and for texts that replacing leaves as they are; `HasFields.of_join`, texts without a
delimiter that does not overlap itself are the fields of what they are joined to.
-/
namespace SparqlMetrics.Text

variable {delimiter field rest s : Text} {fields : List Text}

/-- The fields of a text at a delimiter. In front of an occurrence there is no earlier one, not even
one that reaches into it, and no occurrence is in the last field. -/
inductive HasFields (delimiter : Text) : Text → List Text → Prop
  | last {field : Text} : ¬ delimiter <:+: field → HasFields delimiter field [field]
  | more {field rest : Text} {fields : List Text} :
      ¬ delimiter <:+: (field ++ delimiter).dropLast → HasFields delimiter rest fields →
      HasFields delimiter (field ++ (delimiter ++ rest)) (field :: fields)

theorem HasFields.ne_nil (h : HasFields delimiter s fields) : fields ≠ [] := by
  cases h <;> simp

theorem join_cons (separator field : Text) (ne : fields ≠ []) :
    join separator (field :: fields) = field ++ (separator ++ join separator fields) := by
  obtain ⟨next, more, rfl⟩ := List.exists_cons_of_ne_nil ne
  simp [join, List.intercalate]

@[simp] theorem join_singleton (separator field : Text) : join separator [field] = field := by
  simp [join, List.intercalate]

theorem join_consField (separator : Text) (b : Byte) (ne : fields ≠ []) :
    join separator (consField b fields) = b :: join separator fields := by
  obtain ⟨first, more, rfl⟩ := List.exists_cons_of_ne_nil ne
  cases more with
  | nil => simp [consField]
  | cons next rest =>
      rw [consField, join_cons _ _ (List.cons_ne_nil _ _), join_cons _ _ (List.cons_ne_nil _ _),
        List.cons_append]

/-- Every field but the first one brings a separator. -/
theorem length_join (separator field : Text) (fields : List Text) :
    (join separator (field :: fields)).length =
      field.length + fields.flatten.length + fields.length * separator.length := by
  induction fields generalizing field with
  | nil => simp
  | cons next fields ih =>
      rw [join_cons _ _ (List.cons_ne_nil _ _), List.length_append, List.length_append, ih,
        List.flatten_cons, List.length_append, List.length_cons, Nat.add_one_mul]
      omega

theorem length_le_join_of_mem {separator : Text} (h : s ∈ fields) :
    s.length ≤ (join separator fields).length := by
  have inside := (List.sublist_flatten_of_mem h).length_le
  cases fields with
  | nil => cases h
  | cons field fields =>
      rw [List.flatten_cons, List.length_append] at inside
      rw [length_join]
      omega

/-- Two fields and more are joined to different texts by different separators. -/
theorem join_inj {separator other : Text} (more : fields ≠ []) :
    join separator (field :: fields) = join other (field :: fields) ↔ separator = other := by
  constructor
  · intro same
    have lengths := congrArg List.length same
    rw [length_join, length_join, Nat.add_left_cancel_iff] at lengths
    have long : separator.length = other.length :=
      Nat.eq_of_mul_eq_mul_left (List.length_pos_iff.mpr more) lengths
    rw [join_cons _ _ more, join_cons _ _ more] at same
    exact List.append_inj_left (List.append_cancel_left same) long
  · rintro rfl
    rfl

/-- Joined with the delimiter again, the fields are the text. -/
theorem HasFields.join_eq (h : HasFields delimiter s fields) : join delimiter fields = s := by
  induction h with
  | last => exact join_singleton _ _
  | more _ behind ih => rw [join_cons _ _ behind.ne_nil, ih]

/-- A field with an occurrence behind it has none in it. -/
theorem not_infix_of_dropLast (ne : delimiter ≠ [])
    (h : ¬ delimiter <:+: (field ++ delimiter).dropLast) : ¬ delimiter <:+: field := by
  intro inside
  rw [List.dropLast_append_of_ne_nil ne] at h
  exact h (inside.trans (List.prefix_append _ _).isInfix)

theorem HasFields.not_infix (ne : delimiter ≠ []) (h : HasFields delimiter s fields) :
    ∀ field ∈ fields, ¬ delimiter <:+: field := by
  induction h with
  | last free => exact List.forall_mem_singleton.mpr free
  | more first _ ih => exact List.forall_mem_cons.mpr ⟨not_infix_of_dropLast ne first, ih⟩

section Search

theorem splitAfter_length (w : Text) :
    splitAfter delimiter w.length (w ++ s) = splitAfter delimiter 0 s := by
  induction w with
  | nil => rfl
  | cons b w ih => exact ih

theorem splitAfter_append_self (ne : delimiter ≠ []) :
    splitAfter delimiter 0 (delimiter ++ rest) = [] :: splitAfter delimiter 0 rest := by
  obtain ⟨b, w, rfl⟩ := List.exists_cons_of_ne_nil ne
  have found : (b :: w).isPrefixOf (b :: (w ++ rest)) = true :=
    List.isPrefixOf_iff_prefix.mpr (List.prefix_append (b :: w) rest)
  rw [List.cons_append, splitAfter, if_pos found, List.length_cons, Nat.add_sub_cancel,
    splitAfter_length]

/-- An occurrence at the front of a field and what is behind it begins in front of the one that ends
the field. -/
theorem not_prefix_of_dropLast {b : Byte}
    (h : ¬ delimiter <:+: (b :: field ++ delimiter).dropLast) :
    ¬ delimiter <+: b :: (field ++ (delimiter ++ rest)) := by
  intro found
  apply h
  have whole : b :: (field ++ (delimiter ++ rest)) = (b :: field ++ delimiter) ++ rest := by simp
  rw [whole] at found
  have shortened : (b :: field ++ delimiter).dropLast <+: b :: field ++ delimiter :=
    List.dropLast_prefix _
  refine (List.prefix_of_prefix_length_le found
    (shortened.trans (List.prefix_append _ _)) ?_).isInfix
  simp only [List.length_dropLast, List.length_append, List.length_cons]
  omega

theorem not_infix_dropLast_tail {b : Byte} (ne : delimiter ≠ [])
    (h : ¬ delimiter <:+: (b :: field ++ delimiter).dropLast) :
    ¬ delimiter <:+: (field ++ delimiter).dropLast := by
  intro inside
  rw [List.cons_append, List.dropLast_cons_of_ne_nil (List.append_ne_nil_of_right_ne_nil _ ne)] at h
  exact h (List.infix_cons inside)

/-- A field in front of an occurrence is split off. -/
theorem splitAfter_field (ne : delimiter ≠ [])
    (h : ¬ delimiter <:+: (field ++ delimiter).dropLast) :
    splitAfter delimiter 0 (field ++ (delimiter ++ rest)) =
      field :: splitAfter delimiter 0 rest := by
  induction field with
  | nil => exact splitAfter_append_self ne
  | cons b field ih =>
      have other : ¬ delimiter.isPrefixOf (b :: (field ++ (delimiter ++ rest))) = true :=
        fun found => not_prefix_of_dropLast h (List.isPrefixOf_iff_prefix.mp found)
      rw [List.cons_append, splitAfter, if_neg other, ih (not_infix_dropLast_tail ne h), consField]

theorem splitAfter_of_not_infix (h : ¬ delimiter <:+: s) : splitAfter delimiter 0 s = [s] := by
  induction s with
  | nil => rfl
  | cons b s ih =>
      rw [List.infix_cons_iff, not_or] at h
      have other : ¬ delimiter.isPrefixOf (b :: s) = true :=
        fun found => h.1 (List.isPrefixOf_iff_prefix.mp found)
      rw [splitAfter, if_neg other, ih h.2, consField]

theorem HasFields.splitAfter_eq (ne : delimiter ≠ []) (h : HasFields delimiter s fields) :
    splitAfter delimiter 0 s = fields := by
  induction h with
  | last free => exact splitAfter_of_not_infix free
  | more first _ ih => rw [splitAfter_field ne first, ih]

theorem HasFields.consField {b : Byte} (ne : delimiter ≠ []) (h : HasFields delimiter s fields)
    (other : ¬ delimiter <+: b :: s) : HasFields delimiter (b :: s) (consField b fields) := by
  cases h with
  | last free => exact .last fun inside => (List.infix_cons_iff.mp inside).elim other free
  | @more field rest fields first behind =>
      show HasFields delimiter (b :: field ++ (delimiter ++ rest)) ((b :: field) :: fields)
      refine .more (fun inside => ?_) behind
      rw [List.cons_append,
        List.dropLast_cons_of_ne_nil (List.append_ne_nil_of_right_ne_nil _ ne)] at inside
      rcases List.infix_cons_iff.mp inside with front | inside
      · have shortened : (field ++ delimiter).dropLast <+: field ++ delimiter :=
          List.dropLast_prefix _
        apply other
        refine front.trans ((List.prefix_cons_inj b).mpr ?_)
        rw [← List.append_assoc]
        exact shortened.trans (List.prefix_append _ _)
      · exact first inside

/-- With bytes of the last occurrence still to be passed over, the fields are those behind them. -/
theorem hasFields_splitAfter (ne : delimiter ≠ []) (skip : Nat) :
    HasFields delimiter (s.drop skip) (splitAfter delimiter skip s) := by
  induction s generalizing skip with
  | nil =>
      rw [List.drop_nil, splitAfter]
      exact .last fun inside => ne (List.infix_nil.mp inside)
  | cons b rest ih =>
      cases skip with
      | succ skip => exact ih skip
      | zero =>
          rw [splitAfter]
          split
          · next found =>
            obtain ⟨behind, same⟩ := List.isPrefixOf_iff_prefix.mp found
            have skipped : rest.drop (delimiter.length - 1) = behind := by
              obtain ⟨c, w, rfl⟩ := List.exists_cons_of_ne_nil ne
              obtain ⟨-, rfl⟩ := List.cons.inj same
              simp
            rw [List.drop_zero, ← same, ← List.nil_append (delimiter ++ behind)]
            refine .more (fun inside => ?_) (skipped ▸ ih _)
            have short := inside.length_le
            have long := List.length_pos_iff.mpr ne
            simp only [List.nil_append, List.length_dropLast] at short
            omega
          · next other =>
            exact (ih 0).consField ne fun found => other (List.isPrefixOf_iff_prefix.mpr found)

theorem hasFields_split (ne : delimiter ≠ []) (s : Text) :
    HasFields delimiter s (split delimiter s) := by
  rw [split, if_neg (by simpa using ne)]
  exact hasFields_splitAfter ne 0

/-- The fields of a text are those that splitting finds. -/
theorem hasFields_iff (ne : delimiter ≠ []) :
    HasFields delimiter s fields ↔ split delimiter s = fields := by
  constructor
  · intro h
    rw [split, if_neg (by simpa using ne)]
    exact h.splitAfter_eq ne
  · rintro rfl
    exact hasFields_split ne s

end Search

section Replace

variable (pattern replacement : Text)

theorem replaceAfter_eq_join (skip : Nat) (s : Text) :
    replaceAfter pattern replacement skip s = join replacement (splitAfter pattern skip s) := by
  induction s generalizing skip with
  | nil => simp [replaceAfter, splitAfter]
  | cons b rest ih =>
      cases skip with
      | succ skip => exact ih skip
      | zero =>
          rw [replaceAfter, splitAfter]
          split
          · rw [join_cons _ _ (splitAfter_ne_nil _ _ _), List.nil_append, ih]
          · rw [join_consField _ _ (splitAfter_ne_nil _ _ _), ih]

/-- Replacing a pattern joins the fields between its occurrences again. -/
theorem replaceAll_eq_join (s : Text) :
    replaceAll pattern replacement s = join replacement (split pattern s) := by
  rw [replaceAll, split]
  split
  · exact (join_singleton _ _).symm
  · exact replaceAfter_eq_join _ _ 0 s

variable {pattern replacement}

/-- Each occurrence gives the pattern's bytes away for those of the replacement. -/
theorem length_replaceAll (ne : pattern ≠ []) (replacement s : Text) :
    (replaceAll pattern replacement s).length +
        ((split pattern s).length - 1) * pattern.length =
      s.length + ((split pattern s).length - 1) * replacement.length := by
  have found := hasFields_split ne s
  have whole := congrArg List.length found.join_eq
  obtain ⟨field, fields, same⟩ := List.exists_cons_of_ne_nil found.ne_nil
  rw [replaceAll_eq_join, ← whole, same, length_join, length_join, List.length_cons,
    Nat.add_sub_cancel]
  omega

/-- Replacing keeps a text exactly where it puts in what it takes out or takes out nothing. -/
theorem replaceAll_eq_self_iff (ne : pattern ≠ []) :
    replaceAll pattern replacement s = s ↔ replacement = pattern ∨ ¬ pattern <:+: s := by
  have found := hasFields_split ne s
  rw [replaceAll_eq_join]
  generalize split pattern s = fields at found
  cases found with
  | last free => exact iff_of_true (join_singleton _ _) (.inr free)
  | @more field rest fields first behind =>
      have whole := (HasFields.more first behind).join_eq
      have occurs : pattern <:+: field ++ (pattern ++ rest) :=
        ⟨field, rest, List.append_assoc _ _ _⟩
      calc join replacement (field :: fields) = field ++ (pattern ++ rest)
          ↔ join replacement (field :: fields) = join pattern (field :: fields) := by rw [whole]
        _ ↔ replacement = pattern := join_inj behind.ne_nil
        _ ↔ replacement = pattern ∨ ¬ pattern <:+: field ++ (pattern ++ rest) :=
          (or_iff_left (not_not_intro occurs)).symm

/-- Splitting finds the fields of a text, which joined with the delimiter are the text again and do
not have the delimiter in them. Replacing joins the same fields with the replacement, so the length
is kept where the replacement is as long as the delimiter, and the text exactly where the replacement
is the delimiter or the delimiter does not occur. -/
theorem replaceAll_agrees (ne : delimiter ≠ []) (s : Text) :
    (∀ fields, HasFields delimiter s fields ↔ split delimiter s = fields) ∧
      join delimiter (split delimiter s) = s ∧
      (∀ field ∈ split delimiter s, ¬ delimiter <:+: field) ∧
      ∀ replacement,
        replaceAll delimiter replacement s = join replacement (split delimiter s) ∧
        (replacement.length = delimiter.length →
          (replaceAll delimiter replacement s).length = s.length) ∧
        (replaceAll delimiter replacement s = s ↔
          replacement = delimiter ∨ ¬ delimiter <:+: s) := by
  have found := hasFields_split ne s
  refine ⟨fun fields => hasFields_iff ne, found.join_eq, found.not_infix ne, fun replacement => ?_⟩
  refine ⟨replaceAll_eq_join _ _ s, fun long => ?_, replaceAll_eq_self_iff ne⟩
  have lengths := length_replaceAll ne replacement s
  rw [long] at lengths
  exact Nat.add_right_cancel lengths

/-- The second of two occurrences that overlap stays where it is: its front went with the first. -/
theorem replaceAll_agrees_overlapping :
    let s := utf8 "a OR OR b"
    utf8 " OR " ≠ [] ∧ HasFields (utf8 " OR ") s [utf8 "a", utf8 "OR b"] ∧
      replaceAll (utf8 " OR ") (utf8 " || ") s = utf8 "a || OR b" ∧
      (utf8 " || ").length = (utf8 " OR ").length ∧
      (replaceAll (utf8 " OR ") (utf8 " || ") s).length = s.length ∧
      replaceAll (utf8 " OR ") (utf8 " || ") s ≠ s := by
  have ne : utf8 " OR " ≠ [] := by decide
  obtain ⟨fields, -, -, replaced⟩ := replaceAll_agrees ne (utf8 "a OR OR b")
  have found : split (utf8 " OR ") (utf8 "a OR OR b") = [utf8 "a", utf8 "OR b"] := by decide
  obtain ⟨joined, long, kept⟩ := replaced (utf8 " || ")
  refine ⟨ne, (fields _).mpr found, ?_, rfl, long rfl, fun same => ?_⟩
  · rw [joined, found]
    rfl
  · rcases kept.mp same with same | free
    · exact absurd same (by decide)
    · exact free ⟨utf8 "a", utf8 "OR b", by decide⟩

end Replace

section Cut

theorem cut?_of_not_infix (h : ¬ delimiter <:+: s) : cut? delimiter s = none := by
  induction s with
  | nil =>
      have ne : delimiter ≠ [] := fun empty => h (empty ▸ List.infix_rfl)
      rw [cut?, if_neg (by simpa using ne)]
  | cons b s ih =>
      rw [List.infix_cons_iff, not_or] at h
      have other : ¬ delimiter.isPrefixOf (b :: s) = true :=
        fun found => h.1 (List.isPrefixOf_iff_prefix.mp found)
      rw [cut?, if_neg other, ih h.2, Option.map_none]

theorem cut?_field (ne : delimiter ≠ [])
    (h : ¬ delimiter <:+: (field ++ delimiter).dropLast) :
    cut? delimiter (field ++ (delimiter ++ rest)) = some (field, rest) := by
  induction field with
  | nil =>
      obtain ⟨b, w, rfl⟩ := List.exists_cons_of_ne_nil ne
      have found : (b :: w).isPrefixOf (b :: (w ++ rest)) = true :=
        List.isPrefixOf_iff_prefix.mpr (List.prefix_append (b :: w) rest)
      rw [List.nil_append, List.cons_append, cut?, if_pos found]
      simp
  | cons b field ih =>
      have other : ¬ delimiter.isPrefixOf (b :: (field ++ (delimiter ++ rest))) = true :=
        fun found => not_prefix_of_dropLast h (List.isPrefixOf_iff_prefix.mp found)
      rw [List.cons_append, cut?, if_neg other, ih (not_infix_dropLast_tail ne h), Option.map_some]

end Cut

section Unbordered

/-- Whether a text does not overlap itself: no proper part at its beginning is one at its end. -/
def IsUnbordered (d : Text) : Prop := ∀ w ∈ d.inits, w <:+ d → w = [] ∨ w = d

instance (d : Text) : Decidable d.IsUnbordered :=
  inferInstanceAs (Decidable (∀ w ∈ d.inits, w <:+ d → w = [] ∨ w = d))

/-- An occurrence that begins in a field and ends in the delimiter behind it would overlap that. -/
theorem not_infix_of_isUnbordered (unbordered : delimiter.IsUnbordered)
    (free : ¬ delimiter <:+: field) : ¬ delimiter <:+: (field ++ delimiter).dropLast := by
  intro inside
  have ne : delimiter ≠ [] := fun empty => free (empty ▸ List.nil_infix)
  rw [List.dropLast_append_of_ne_nil ne] at inside
  obtain ⟨before, behind, same⟩ := inside
  rcases List.append_eq_append_iff.mp same with ⟨w, whole, -⟩ | ⟨w, reaches, beginning⟩
  · exact free ⟨before, w, whole.symm⟩
  · -- `w` is the part of the delimiter's beginning that the occurrence reaches into.
    have shortened : delimiter.dropLast <+: delimiter := List.dropLast_prefix _
    have front : w <+: delimiter := List.IsPrefix.trans ⟨behind, beginning.symm⟩ shortened
    have shorter : w.length < delimiter.length := by
      have bound := congrArg List.length beginning
      have long := List.length_pos_iff.mpr ne
      simp only [List.length_dropLast, List.length_append] at bound
      omega
    have back : w <:+ delimiter :=
      List.suffix_of_suffix_length_le ⟨field, rfl⟩ ⟨before, reaches⟩ shorter.le
    rcases unbordered w ((List.mem_inits _ _).mpr front) back with rfl | rfl
    · rw [List.append_nil] at reaches
      exact free ⟨before, [], by rw [List.append_nil, reaches]⟩
    · exact absurd shorter (Nat.lt_irrefl _)

/-- Texts without a delimiter that does not overlap itself are the fields of what they are joined
to, whatever stands at their ends. -/
theorem HasFields.of_join (unbordered : delimiter.IsUnbordered) (nonempty : fields ≠ [])
    (free : ∀ field ∈ fields, ¬ delimiter <:+: field) :
    HasFields delimiter (join delimiter fields) fields := by
  induction fields with
  | nil => exact absurd rfl nonempty
  | cons field fields ih =>
      rw [List.forall_mem_cons] at free
      by_cases more : fields = []
      · subst more
        rw [join_singleton]
        exact .last free.1
      · rw [join_cons _ _ more]
        exact .more (not_infix_of_isUnbordered unbordered free.1) (ih more free.2)

end Unbordered

/-! ## Lines -/

/-- What a line shows: all of it, or all but one carriage return at its end. -/
def IsContent (content line : Text) : Prop :=
  line = content ++ [Byte.carriageReturn] ∨
    line = content ∧ line.getLast? ≠ some Byte.carriageReturn

theorem isContent_withoutReturn (line : Text) : IsContent (withoutReturn line) line := by
  rw [withoutReturn]
  split
  · next ends =>
    have nonempty := List.ne_nil_of_mem (List.mem_of_mem_getLast? ends)
    rw [List.getLast?_eq_some_getLast nonempty, Option.some.injEq] at ends
    exact .inl (ends ▸ (List.dropLast_append_getLast nonempty).symm)
  · next other => exact .inr ⟨rfl, other⟩

theorem IsContent.subset {content line : Text} (h : IsContent content line) : content ⊆ line := by
  rcases h with rfl | ⟨rfl, -⟩
  · exact List.subset_append_left _ _
  · exact List.Subset.refl _

theorem split_of_free {b : Byte} (free : b ∉ s) : split [b] s = [s] :=
  (hasFields_iff (List.cons_ne_nil _ _)).mp (.last (mt (List.singleton_infix_iff _ _).mp free))

theorem split_line {line : Text} (free : Byte.newline ∉ line) (s : Text) :
    split [Byte.newline] (line ++ Byte.newline :: s) = line :: split [Byte.newline] s := by
  refine (hasFields_iff (by decide)).mp (.more ?_ (hasFields_split (by decide) s))
  rw [List.dropLast_concat]
  exact mt (List.singleton_infix_iff _ _).mp free

end SparqlMetrics.Text
