import SparqlMetrics.Proofs.Normal.Chunks

/-!
# Lines of a written query

To remove a line from a text is to remove the lines that end like it. Among lines of declarations
these are the line itself (`Declaration.removeLine_lines`). Behind them there are none: a line that
ends with an IRI names a graph, a service or a dataset, and the word in front of the IRI is that of
its clause (`Chunk.removeLine_texts`).
-/
namespace SparqlMetrics

open SparqlMetrics.Normal Lexeme

namespace Normal
section Removing
variable {s c d w : Text}

theorem replaceAfter_length (pattern w s : Text) :
    Text.replaceAfter pattern [] w.length (w ++ s) = Text.replaceAfter pattern [] 0 s := by
  induction w with
  | nil => rfl
  | cons b w ih => exact ih

theorem removeLine_eq (s d : Text) :
    removeLine s d = Text.replaceAfter (d ++ [Byte.newline]) [] 0 s := by
  simp [removeLine, Text.replaceAll]

/-- Where no line ends like a given one, nothing is removed. -/
theorem removeLine_of_absent (absent : ∀ x y, s = x ++ Byte.newline :: y → ¬ d <:+ x) :
    removeLine s d = s := by
  rw [removeLine_eq]
  induction s with
  | nil => rfl
  | cons b s ih =>
      have other : (d ++ [Byte.newline]).isPrefixOf (b :: s) = false :=
        Bool.eq_false_iff.mpr fun found => by
          obtain ⟨y, same⟩ := List.isPrefixOf_iff_prefix.mp found
          rw [List.append_assoc, List.singleton_append] at same
          exact absent d y same.symm List.suffix_rfl
      rw [Text.replaceAfter, other, if_neg (by decide), ih fun x y same ends => ?_]
      exact absent (b :: x) y (by rw [same]; rfl) (ends.trans (List.suffix_cons b x))

/-- A line that does not end like the one that is removed stays. -/
theorem removeLine_other (free : Byte.newline ∉ c) (freeLine : Byte.newline ∉ d) (other : ¬ d <:+ c) :
    removeLine (c ++ Byte.newline :: s) d = c ++ Byte.newline :: removeLine s d := by
  rw [removeLine_eq, removeLine_eq]
  induction c with
  | nil =>
      have differs : (d ++ [Byte.newline]).isPrefixOf (Byte.newline :: s) = false :=
        Bool.eq_false_iff.mpr fun found => by
          obtain ⟨y, same⟩ := List.isPrefixOf_iff_prefix.mp found
          rw [List.append_assoc, List.singleton_append] at same
          exact other ((eq_of_append_cons freeLine List.not_mem_nil same).1 ▸ List.suffix_rfl)
      rw [List.nil_append, Text.replaceAfter, differs, if_neg (by decide)]
      rfl
  | cons b c ih =>
      have differs : (d ++ [Byte.newline]).isPrefixOf (b :: (c ++ Byte.newline :: s)) = false :=
        Bool.eq_false_iff.mpr fun found => by
          obtain ⟨y, same⟩ := List.isPrefixOf_iff_prefix.mp found
          rw [List.append_assoc, List.singleton_append, ← List.cons_append] at same
          exact other ((eq_of_append_cons freeLine free same).1 ▸ List.suffix_rfl)
      rw [List.cons_append, Text.replaceAfter, differs, if_neg (by decide),
        ih (fun member => free (List.mem_cons_of_mem _ member))
          fun ends => other (ends.trans (List.suffix_cons b c))]
      rfl

theorem removeLine_self (s d : Text) : removeLine (d ++ Byte.newline :: s) d = removeLine s d := by
  rw [removeLine_eq, removeLine_eq]
  have whole : d ++ Byte.newline :: s = d ++ [Byte.newline] ++ s := by simp
  rw [whole]
  generalize pattern : d ++ [Byte.newline] = w
  cases w with
  | nil => simp at pattern
  | cons b w =>
      have found : (b :: w).isPrefixOf (b :: (w ++ s)) = true :=
        List.isPrefixOf_iff_prefix.mpr ⟨s, rfl⟩
      rw [List.cons_append, Text.replaceAfter, found, if_pos rfl, List.length_cons,
        Nat.add_sub_cancel, replaceAfter_length]
      rfl

/-- Of a line that ends like the one that is removed, the end goes with its newline. -/
theorem removeLine_suffix {x : Text} (free : Byte.newline ∉ x) (freeLine : Byte.newline ∉ d) :
    removeLine (x ++ (d ++ Byte.newline :: s)) d = x ++ removeLine s d := by
  induction x with
  | nil => exact removeLine_self s d
  | cons b x ih =>
      rw [List.mem_cons, not_or] at free
      have differs : (d ++ [Byte.newline]).isPrefixOf (b :: (x ++ (d ++ Byte.newline :: s))) = false :=
        Bool.eq_false_iff.mpr fun found => by
          obtain ⟨y, same⟩ := List.isPrefixOf_iff_prefix.mp found
          have line : Byte.newline ∉ b :: (x ++ d) := by simp [free, freeLine]
          have cut : d ++ Byte.newline :: y = (b :: (x ++ d)) ++ Byte.newline :: s := by
            simpa using same
          have lengths := congrArg List.length (eq_of_append_cons freeLine line cut).1
          simp only [List.length_cons, List.length_append] at lengths
          omega
      have tail := ih free.2
      rw [removeLine_eq] at tail ⊢
      rw [List.cons_append, Text.replaceAfter, differs, if_neg (by decide), tail]
      rfl

end Removing
end Normal

namespace Declaration

/-- What stands in front of the IRI of a declaration. -/
def opening : Declaration → Text
  | .namespace label _ => utf8 "PREFIX " ++ label ++ [Byte.colon]
  | .base _ => utf8 "BASE"

/-- The line of a declaration without its end. -/
def content (d : Declaration) : Text := d.opening ++ Byte.space :: Text.angled d.iri

/-- Whether a declaration is of a label and an IRI that can be written. -/
def IsSpelled (d : Declaration) : Prop :=
  (∀ label iri, d = .namespace label iri → IsPrefixLabel label) ∧ IsCleanIri d.iri

theorem text_eq_content (d : Declaration) (s : Text) :
    d.text ++ s = d.content ++ Byte.newline :: s := by
  have colon : utf8 ": " = [Byte.colon, Byte.space] := by decide
  have newline : utf8 "\n" = [Byte.newline] := by decide
  have base : utf8 "BASE " = utf8 "BASE" ++ [Byte.space] := by decide
  cases d <;> simp [text, content, opening, iri, colon, newline, base]

theorem space_not_mem_angled {iri : Text} (clean : IsCleanIri iri) : Byte.space ∉ Text.angled iri := by
  have free : Byte.space ∉ iri := fun member => absurd (clean _ member).1 (by decide)
  have others : Byte.space ≠ Byte.less ∧ Byte.space ≠ Byte.greater := by decide
  simp [Text.angled, free, others]

theorem isLabelByte_of_mem {label : Text} (h : IsPrefixLabel label) {b : Byte} (member : b ∈ label) :
    isLabelByte b = true := by
  rcases h with rfl | h
  · cases member
  · exact h.2.1 b member

theorem newline_not_mem_content {d : Declaration} (h : d.IsSpelled) : Byte.newline ∉ d.content := by
  have iri := newline_not_mem_of_clean h.2
  have marks : Byte.newline ≠ Byte.less ∧ Byte.newline ≠ Byte.greater ∧ Byte.newline ≠ Byte.space ∧
      Byte.newline ≠ Byte.colon ∧ Byte.newline ∉ utf8 "PREFIX " ∧ Byte.newline ∉ utf8 "BASE" := by
    decide
  cases d with
  | «namespace» label value =>
      have label : Byte.newline ∉ label := fun member =>
        absurd (isLabelByte_of_mem (h.1 _ _ rfl) member) (by decide)
      simp_all [content, opening, Text.angled]
  | base value => simp_all [content, opening, Text.angled]

/-- What ends a line like a declaration does ends with the opening and the IRI of that one. -/
theorem ends_of_suffix {d : Declaration} (h : d.IsSpelled) {front iri : Text} (clean : IsCleanIri iri)
    (ends : d.content <:+ front ++ Byte.space :: Text.angled iri) :
    d.opening <:+ front ∧ d.iri = iri := by
  obtain ⟨t, same⟩ := ends
  rw [content, ← List.append_assoc] at same
  obtain ⟨heads, iris⟩ :=
    eq_of_append_cons_last (space_not_mem_angled h.2) (space_not_mem_angled clean) same
  refine ⟨⟨t, heads⟩, ?_⟩
  exact List.append_cancel_right (List.cons.inj iris).2

/-- No declaration's line but itself ends like it. -/
theorem eq_of_suffix {c d : Declaration} (hc : c.IsSpelled) (hd : d.IsSpelled)
    (ends : d.content <:+ c.content) : c = d := by
  obtain ⟨⟨t, openings⟩, iris⟩ := ends_of_suffix hd hc.2 ends
  have noSpace : ∀ {label : Text}, IsPrefixLabel label → Byte.space ∉ label := fun isLabel member =>
    absurd (isLabelByte_of_mem isLabel member) (by decide)
  have lasts := congrArg List.getLast? openings
  cases d with
  | «namespace» label value =>
      cases c with
      | «namespace» other value' =>
          have word : utf8 "PREFIX " = utf8 "PREFIX" ++ [Byte.space] := by decide
          simp only [opening, ← List.append_assoc] at openings
          have cut := List.append_cancel_right openings
          rw [word] at cut
          simp only [List.append_assoc, List.singleton_append] at cut
          rw [← List.append_assoc] at cut
          obtain ⟨_, rfl⟩ := eq_of_append_cons_last (noSpace (hd.1 _ _ rfl)) (noSpace (hc.1 _ _ rfl)) cut
          exact congrArg (Declaration.namespace label) iris.symm
      | base value' =>
          simp only [opening, ← List.append_assoc, List.getLast?_concat] at lasts
          exact absurd lasts (by decide)
  | base value =>
      cases c with
      | «namespace» other value' =>
          have word : utf8 "BASE" = utf8 "BAS" ++ [0x45] := by decide
          simp only [opening, word, ← List.append_assoc, List.getLast?_concat] at lasts
          exact absurd lasts (by decide)
      | base value' => exact congrArg Declaration.base iris.symm

/-- Of lines of declarations, the one that is removed goes and the others stay. -/
theorem removeLine_lines {ds : List Declaration} (h : ∀ c ∈ ds, c.IsSpelled) {d : Declaration}
    (hd : d.IsSpelled) (s : Text) :
    removeLine (lines ds ++ s) d.content = lines (ds.filter (· ≠ d)) ++ removeLine s d.content := by
  induction ds with
  | nil => rfl
  | cons c ds ih =>
      have tail := ih fun e member => h e (List.mem_cons_of_mem _ member)
      have hc := h c List.mem_cons_self
      have cut : ∀ ds s, lines (c :: ds) ++ s = c.content ++ Byte.newline :: (lines ds ++ s) := by
        intro ds s
        rw [← text_eq_content, lines, List.flatMap_cons, List.append_assoc]
        rfl
      rw [cut]
      by_cases same : c = d
      · rw [same, removeLine_self, tail, List.filter_cons_of_neg (by simp)]
      · rw [removeLine_other (newline_not_mem_content hc) (newline_not_mem_content hd)
          fun ends => same (eq_of_suffix hc hd ends), tail, ← cut,
          List.filter_cons_of_pos (by simpa using same)]

end Declaration

/-- Whether a lexeme is written as an IRI may be. -/
def Lexeme.isReference : Lexeme → Bool
  | .iri _ => true
  | .prefixedName _ _ => true
  | _ => false

/-- The words that stand in front of an IRI that ends its line. -/
def namingKeywords : List Keyword := [.FROM, .NAMED, .GRAPH, .SERVICE, .SILENT]

namespace Chunk

/-- Whether an IRI or a name ends no line but that of a clause. -/
inductive Ended : List Chunk → Prop
  | nil : Ended []
  | gap {b : Byte} {cs : List Chunk} : Ended cs → Ended (.gap b :: cs)
  | token {word : Text} {l : Lexeme} {shuns : Byte → Bool} {cs : List Chunk} : Ended cs →
      (l.isReference = true → Avoids Byte.newline (texts cs)) → Ended (.token word l shuns :: cs)
  | clause {k : Keyword} {l : Lexeme} {word : Text} {shuns' shuns : Byte → Bool}
      {cs : List Chunk} : k ∈ namingKeywords → Ended cs →
      Ended (.token (utf8 k.name) (.keyword k (utf8 k.name)) shuns' :: .gap Byte.space ::
        .token word l shuns :: .gap Byte.newline :: cs)

variable {ns : Namespaces} {cs : List Chunk} {which : Text → Bool} {behindMinus : Bool}

section Removing

/-- The word of a clause ends with other letters than those of a declaration. -/
theorem not_suffix_clause {k : Keyword} (h : k ∈ namingKeywords) (d : Declaration) (pre : Text) :
    ¬ d.opening <:+ pre ++ utf8 k.name := by
  have word : ∃ front a b, utf8 k.name = front ++ [a, b] ∧ b ≠ Byte.colon ∧ [a, b] ≠ utf8 "SE" := by
    simp only [namingKeywords, List.mem_cons, List.not_mem_nil, or_false] at h
    rcases h with rfl | rfl | rfl | rfl | rfl
    · exact ⟨utf8 "FR", _, _, rfl, by decide, by decide⟩
    · exact ⟨utf8 "NAM", _, _, rfl, by decide, by decide⟩
    · exact ⟨utf8 "GRA", _, _, rfl, by decide, by decide⟩
    · exact ⟨utf8 "SERVI", _, _, rfl, by decide, by decide⟩
    · exact ⟨utf8 "SILE", _, _, rfl, by decide, by decide⟩
  obtain ⟨front, a, b, spelled, noColon, noBase⟩ := word
  rintro ⟨t, same⟩
  rw [spelled] at same
  cases d with
  | «namespace» label iri =>
      have lasts := congrArg List.getLast? same
      simp [Declaration.opening, List.getLast?_append] at lasts
      exact noColon lasts.symm
  | base iri =>
      have opening : Declaration.opening (.base iri) = utf8 "BA" ++ utf8 "SE" := by
        rw [Declaration.opening]
        decide
      rw [opening, ← List.append_assoc, ← List.append_assoc] at same
      exact noBase (List.append_inj' same rfl).2.symm

theorem getLast?_of_suffix {d : Declaration} {x : Text} (ends : d.content <:+ x) :
    x.getLast? = some Byte.greater := by
  obtain ⟨t, rfl⟩ := ends
  simp [Declaration.content, Text.angled, List.getLast?_append, List.getLast?_cons]

/-- A text in front of a mark that is not in its first part. -/
theorem behind_of_append {mark : Byte} {s t x y : Text} (free : mark ∉ s)
    (h : s ++ t = x ++ mark :: y) : ∃ x', x = s ++ x' ∧ t = x' ++ mark :: y := by
  rcases List.append_eq_append_iff.mp h with ⟨x', cut, behind⟩ | ⟨more, cut, behind⟩
  · exact ⟨x', cut, behind⟩
  · cases more with
    | nil => exact ⟨[], by simpa using cut.symm, behind.symm⟩
    | cons b more =>
        obtain ⟨rfl, _⟩ := List.cons.inj behind
        exact absurd (by simp [cut]) free

/-- No line of chunks ends like a declaration, whatever stands in front of the first one. -/
theorem not_suffix_line (h : Laid ns cs) (ended : Ended cs) {d : Declaration} (hd : d.IsSpelled)
    {pre : Text} (start : pre.getLast? = some Byte.greater → Avoids Byte.newline (texts cs))
    {x y : Text} (cut : texts cs = x ++ Byte.newline :: y) : ¬ d.content <:+ pre ++ x := by
  induction ended generalizing pre x with
  | nil => simp [texts] at cut
  | @gap b cs ended ih =>
      have white : b ≠ Byte.greater := by
        rintro rfl
        exact absurd h.1 (by decide)
      cases x with
      | nil =>
          intro ends
          rw [List.append_nil] at ends
          have avoids := start (getLast?_of_suffix ends)
          rw [cut] at avoids
          exact absurd (avoids _ rfl) (by decide)
      | cons c x =>
          obtain ⟨rfl, behind⟩ := List.cons.inj cut
          have last : (pre ++ [b]).getLast? ≠ some Byte.greater := by simpa using white
          have tail := ih h.2 (fun same => absurd same last) behind
          rwa [List.append_assoc] at tail
  | @token word l shuns cs ended alone ih =>
      obtain ⟨written, stop, laid⟩ := h
      obtain ⟨x, rfl, behind⟩ := behind_of_append written.oneLine cut
      have nonempty := written.ne_nil
      rw [← List.append_assoc]
      refine ih laid (fun last => ?_) behind
      rw [List.getLast?_append_of_ne_nil _ nonempty] at last
      rcases written.bracket last with shunned | ⟨iri, _, _, rfl⟩
      · exact stop.weaken fun b kept => beq_false_of_ne fun same => by
          rw [same, shunned] at kept
          cases kept
      · exact alone rfl
  | @clause k l word shuns' shuns cs isClause ended ih =>
      obtain ⟨writtenWord, _, _, written, stop, _, laid⟩ := h
      have whole : texts (.token (utf8 k.name) (.keyword k (utf8 k.name)) shuns' ::
          .gap Byte.space :: .token word l shuns :: .gap Byte.newline :: cs) =
            (utf8 k.name ++ Byte.space :: word) ++ Byte.newline :: texts cs := by
        simp [text]
      have free : Byte.newline ∉ utf8 k.name ++ Byte.space :: word := by
        have other : Byte.newline ≠ Byte.space := by decide
        simp [writtenWord.oneLine, written.oneLine, other]
      rw [whole] at cut
      obtain ⟨x, rfl, behind⟩ := behind_of_append free cut
      cases x with
      | nil =>
          intro ends
          rw [List.append_nil, ← List.append_assoc] at ends
          have last := getLast?_of_suffix ends
          rw [List.getLast?_append_of_ne_nil _ (List.cons_ne_nil _ _), List.getLast?_cons_of_ne_nil
            written.ne_nil] at last
          rcases written.bracket last with shunned | ⟨iri, clean, rfl, _⟩
          · have open' : shuns Byte.newline = false := stop _ rfl
            rw [open'] at shunned
            cases shunned
          · exact not_suffix_clause isClause d pre (Declaration.ends_of_suffix hd clean ends).1
      | cons b x =>
          obtain ⟨rfl, tail⟩ := List.cons.inj behind
          have last : (pre ++ (utf8 k.name ++ Byte.space :: word) ++ [Byte.newline]).getLast? ≠
              some Byte.greater := by
            rw [List.getLast?_concat]
            decide
          have others := ih laid (fun same => absurd same last) tail
          simpa using others

/-- Where IRIs end no lines but those of clauses, no line is removed as a declaration. -/
theorem removeLine_texts (h : Laid ns cs) (ended : Ended cs) {d : Declaration} (hd : d.IsSpelled) :
    removeLine (texts cs) d.content = texts cs := by
  have start : ([] : Text).getLast? = some Byte.greater → Avoids Byte.newline (texts cs) := nofun
  exact removeLine_of_absent fun _ _ cut => not_suffix_line h ended hd start cut

theorem avoids_renameAll (h : Laid ns cs) (avoids : Avoids Byte.newline (texts cs)) :
    Avoids Byte.newline (texts (renameAll which behindMinus cs)) :=
  stopsAt_renameAll (fun bracket => absurd bracket (by decide)) h avoids

theorem ended_renameAll (h : Laid ns cs) (ended : Ended cs) :
    Ended (renameAll which behindMinus cs) := by
  have renamed : ∀ {word : Text} {l : Lexeme} {shuns : Byte → Bool} (behindMinus : Bool),
      ∃ word' l' shuns', (Chunk.token word l shuns).rename which behindMinus = .token word' l' shuns' ∧
        (l'.isReference = true → l.isReference = true) := by
    intro word l shuns behindMinus
    cases l with
    | prefixedName label name =>
        rw [rename]
        split
        · exact ⟨_, _, _, rfl, fun _ => rfl⟩
        · exact ⟨_, _, _, rfl, id⟩
    | _ => exact ⟨_, _, _, rfl, id⟩
  induction ended generalizing behindMinus with
  | nil => exact .nil
  | gap _ ih => exact .gap (ih h.2)
  | @token word l shuns cs _ alone ih =>
      obtain ⟨word', l', shuns', same, reference⟩ := @renamed word l shuns behindMinus
      rw [renameAll, same]
      exact .token (ih h.2.2) fun isReference => avoids_renameAll h.2.2 (alone (reference isReference))
  | @clause k l word shuns' shuns cs isClause _ ih =>
      obtain ⟨word', l', shuns'', same, _⟩ := @renamed word l shuns false
      have shape : renameAll which behindMinus (.token (utf8 k.name) (.keyword k (utf8 k.name)) shuns' ::
          .gap Byte.space :: .token word l shuns :: .gap Byte.newline :: cs) =
            .token (utf8 k.name) (.keyword k (utf8 k.name)) shuns' :: .gap Byte.space ::
              (Chunk.token word l shuns).rename which false :: .gap Byte.newline ::
                renameAll which false cs := rfl
      rw [shape, same]
      exact .clause isClause (ih h.2.2.2.2.2.2)

end Removing

end Chunk

end SparqlMetrics
