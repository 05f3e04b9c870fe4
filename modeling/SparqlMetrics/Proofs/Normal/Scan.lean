import Mathlib.Data.List.Chain
import Mathlib.Data.List.DropRight
import SparqlMetrics.Metric.Normal
import SparqlMetrics.Proofs.Declarations
import SparqlMetrics.Proofs.Token.Written

/-!
# How names are replaced

The scanner that replaces the names under a label copies everything else byte by byte, strings and
IRIs as a whole. It stops only in front of the label with its colon, and only where the byte before
goes on with no word. So a text is copied whose bytes that may open a label stand behind bytes that
go on (`replaceFrom_sheltered`), and a name under the label is replaced where nothing goes on in
front of it (`replaceFrom_name`).
-/
namespace SparqlMetrics.Normal

open Lexeme

/-- Whether a word goes on behind a byte, if there is one. -/
def goesOn (before : Option Byte) : Bool := (before.map continuesToken).getD false

/-- A byte that may open a label with its colon. -/
def opensLabel (b : Byte) : Bool := b.isNameStart || b == Byte.colon

section Bytes
variable {b : Byte}

theorem continuesToken_of_isWordByte (h : isWordByte b = true) : continuesToken b = true := by
  simp [continuesToken, h]

theorem plain_of_isWordByte (h : isWordByte b = true) : b ≠ Byte.quote ∧ b ≠ Byte.less :=
  Byte.forall_of_digits (P := fun b => isWordByte b = true → b ≠ Byte.quote ∧ b ≠ Byte.less)
    (by decide) b h

theorem continuesName_of_isWordByte (h : isWordByte b = true) : b.continuesName = true :=
  Byte.forall_of_digits (P := fun b => isWordByte b = true → b.continuesName = true)
    (by decide) b h

theorem isWordByte_of_isLabelByte (h : isLabelByte b = true) : isWordByte b = true :=
  Byte.forall_of_digits (P := fun b => isLabelByte b = true → isWordByte b = true)
    (by decide) b h

theorem breaksIri_of_clean (h : isIriForbidden b = false) : breaksIri b = false :=
  Byte.forall_of_digits (P := fun b => isIriForbidden b = false → breaksIri b = false)
    (by decide) b h

end Bytes

theorem verbatim?_eq_none {b : Byte} (h : b ≠ Byte.quote ∧ b ≠ Byte.less) (rest : Text) :
    verbatim? b rest = none := by
  simp [verbatim?, h]

section Marks
variable {mark : Byte} {s t u v : Text}

/-- Two texts are the same on both sides of their first mark. -/
theorem eq_of_append_cons (free : mark ∉ s) (free' : mark ∉ t) (h : s ++ mark :: u = t ++ mark :: v) :
    s = t ∧ u = v := by
  have cut : ∀ {s u : Text}, mark ∉ s → (s ++ mark :: u).takeWhile (· != mark) = s := by
    intro s u free
    refine takeWhile_run (fun b member => ?_) (stopsAt_cons (by simp))
    simp only [bne_iff_ne, ne_eq]
    rintro rfl
    exact free member
  obtain rfl : s = t := by rw [← cut free (u := u), h, cut free']
  exact ⟨rfl, (List.cons.inj (List.append_cancel_left h)).2⟩

/-- Two texts are the same on both sides of their last mark. -/
theorem eq_of_append_cons_last (free : mark ∉ u) (free' : mark ∉ v)
    (h : s ++ mark :: u = t ++ mark :: v) : s = t ∧ u = v := by
  have reversed := congrArg List.reverse h
  simp only [List.reverse_append, List.reverse_cons, List.append_assoc, List.singleton_append]
    at reversed
  have same := eq_of_append_cons (by simpa using free) (by simpa using free') reversed
  exact ⟨List.reverse_injective same.2, List.reverse_injective same.1⟩

end Marks

section Pieces
variable {marker w rest : Text} {before : Option Byte} {b : Byte}

theorem getLast?_or_cons (b : Byte) (w : Text) (before : Option Byte) :
    (b :: w).getLast?.or before = w.getLast?.or (some b) := by
  cases found : w.getLast? <;> simp [List.getLast?_cons, found]

/-- The bytes of a piece that has been replaced are passed over. -/
theorem replaceFrom_length (w : Text) (before : Option Byte) :
    replaceFrom marker w.length before (w ++ rest) =
      replaceFrom marker 0 (w.getLast?.or before) rest := by
  induction w generalizing before with
  | nil => rfl
  | cons b w ih =>
      rw [getLast?_or_cons, ← ih (some b)]
      rfl

theorem replaceFrom_of_piece {text : Text} (h : piece marker before b (w ++ rest) = ⟨b :: w, text⟩) :
    replaceFrom marker 0 before (b :: w ++ rest) =
      text ++ replaceFrom marker 0 (b :: w).getLast? rest := by
  rw [List.cons_append, replaceFrom, h]
  simp only [List.length_cons, Nat.add_sub_cancel, replaceFrom_length]
  rw [← getLast?_or_cons b w none, Option.or_none]

theorem replaceFrom_verbatim (h : verbatim? b (w ++ rest) = some (b :: w)) :
    replaceFrom marker 0 before (b :: w ++ rest) =
      b :: w ++ replaceFrom marker 0 (b :: w).getLast? rest :=
  replaceFrom_of_piece (by rw [piece, h])

/-- Where no word begins, a byte is copied. -/
theorem replaceFrom_of_wordAt (unquoted : verbatim? b rest = none) (h : wordAt before (b :: rest) = []) :
    replaceFrom marker 0 before (b :: rest) = b :: replaceFrom marker 0 (some b) rest := by
  have single : piece marker before b ([] ++ rest) = ⟨[b], [b]⟩ := by
    rw [List.nil_append, piece, unquoted]
    simp [h]
  exact replaceFrom_of_piece single

theorem wordAt_of_goesOn (h : goesOn before = true) (s : Text) : wordAt before s = [] := by
  simp only [goesOn] at h
  simp [wordAt, h]

/-- Behind a byte that goes on, the rest of a word is copied. -/
theorem replaceFrom_word (all : ∀ c ∈ w, isWordByte c = true) (h : goesOn before = true) :
    replaceFrom marker 0 before (w ++ rest) =
      w ++ replaceFrom marker 0 (w.getLast?.or before) rest := by
  induction w generalizing before with
  | nil => rfl
  | cons b w ih =>
      have word := all b List.mem_cons_self
      have unquoted := verbatim?_eq_none (plain_of_isWordByte word) (w ++ rest)
      have next : goesOn (some b) = true := continuesToken_of_isWordByte word
      rw [List.cons_append, replaceFrom_of_wordAt unquoted (wordAt_of_goesOn h _),
        ih (fun c member => all c (List.mem_cons_of_mem _ member)) next, getLast?_or_cons]
      rfl

theorem wordAt_prefix (before : Option Byte) (s : Text) :
    wordAt before s <+: s ∧ ∀ c ∈ wordAt before s, isWordByte c = true := by
  unfold wordAt
  split
  · exact ⟨List.nil_prefix, nofun⟩
  · have cut : withoutFinalDots (s.takeWhile isWordByte) <+: s.takeWhile isWordByte :=
      List.rdropWhile_prefix _ _
    refine ⟨cut.trans (List.takeWhile_prefix _), fun c member => ?_⟩
    exact List.all_eq_true.mp List.all_takeWhile c (cut.subset member)

/-- A byte is copied that opens neither a string nor an IRI, and where no name is replaced. -/
theorem replaceFrom_cons (unquoted : verbatim? b rest = none)
    (kept : goesOn before = true ∨ marker.isPrefixOf (b :: rest) = false) :
    replaceFrom marker 0 before (b :: rest) = b :: replaceFrom marker 0 (some b) rest := by
  obtain ⟨⟨tail, cut⟩, all⟩ := wordAt_prefix before (b :: rest)
  cases word : wordAt before (b :: rest) with
  | nil => exact replaceFrom_of_wordAt unquoted word
  | cons c w =>
      rw [word] at cut all
      obtain ⟨rfl, behind⟩ := List.cons.inj cut
      obtain rfl : w ++ tail = rest := behind
      have other : marker.isPrefixOf (c :: (w ++ tail)) = false := by
        refine kept.resolve_left fun goes => ?_
        rw [wordAt_of_goesOn goes] at word
        cases word
      have same : piece marker before c (w ++ tail) = ⟨c :: w, c :: w⟩ := by
        rw [piece, unquoted]
        simp [word, other]
      have next : goesOn (some c) = true :=
        continuesToken_of_isWordByte (all c List.mem_cons_self)
      have copied : replaceFrom marker 0 (some c) (w ++ tail) =
          w ++ replaceFrom marker 0 (w.getLast?.or (some c)) tail :=
        replaceFrom_word (fun d member => all d (List.mem_cons_of_mem _ member)) next
      rw [copied, ← List.cons_append, replaceFrom_of_piece same, ← getLast?_or_cons c w .none,
        Option.or_none]
      rfl

end Pieces

section Labels
variable {label other w rest : Text} {before : Option Byte}

theorem opensLabel_of_isPrefixOf {b : Byte} (h : IsPrefixLabel label)
    (found : (label ++ [Byte.colon]).isPrefixOf (b :: rest) = true) : opensLabel b = true := by
  rw [List.isPrefixOf_iff_prefix] at found
  obtain ⟨tail, same⟩ := found
  cases label with
  | nil =>
      rw [← (List.cons.inj same).1]
      decide
  | cons c more =>
      rcases h with noLabel | ⟨start, _⟩
      · cases noLabel
      · rw [← (List.cons.inj same).1, opensLabel]
        simpa using .inl start

theorem isPrefixOf_eq_false {b : Byte} (h : IsPrefixLabel label) (closed : opensLabel b = false) :
    (label ++ [Byte.colon]).isPrefixOf (b :: rest) = false :=
  Bool.eq_false_iff.mpr fun found => by
    rw [opensLabel_of_isPrefixOf h found] at closed
    cases closed

/-- A label stands in front of another one's name only if they are the same. -/
theorem isPrefixOf_name (h : IsPrefixLabel label) (free : Byte.colon ∉ other) (distinct : label ≠ other)
    (s : Text) : (label ++ [Byte.colon]).isPrefixOf (other ++ Byte.colon :: s) = false :=
  Bool.eq_false_iff.mpr fun found => by
    obtain ⟨tail, same⟩ := List.isPrefixOf_iff_prefix.mp found
    rw [List.append_assoc, List.singleton_append] at same
    exact distinct (eq_of_append_cons (colon_not_mem h) free same).1

/-- A run of a name's bytes is no label if no colon follows it. -/
theorem isPrefixOf_run (h : IsPrefixLabel label) (all : ∀ b ∈ w, isLabelByte b = true)
    (breaks : Breaks rest) : (label ++ [Byte.colon]).isPrefixOf (w ++ rest) = false :=
  Bool.eq_false_iff.mpr fun found => by
    obtain ⟨tail, same⟩ := List.isPrefixOf_iff_prefix.mp found
    have run : ∀ b ∈ label, isLabelByte b = true := by
      rcases h with rfl | h
      · nofun
      · exact h.2.1
    have behind : Byte.colon :: tail = rest := by
      have cut := congrArg (List.dropWhile isLabelByte) same
      rw [List.append_assoc, List.singleton_append, dropWhile_run run (stopsAt_cons (by decide)),
        dropWhile_run all (breaks.weaken fun _ => continuesName_of_isLabelByte)] at cut
      exact cut
    have colon := breaks Byte.colon (by rw [← behind]; rfl)
    exact absurd colon (by decide)

/-- A text is copied if its bytes that may open a label stand behind bytes that go on, and if it opens
neither with the label nor anywhere a string or an IRI. -/
theorem replaceFrom_sheltered (h : IsPrefixLabel label)
    (plain : ∀ b ∈ w, b ≠ Byte.quote ∧ b ≠ Byte.less)
    (sheltered : w.IsChain fun a b => opensLabel b = true → continuesToken a = true)
    (head : goesOn before = true ∨ (label ++ [Byte.colon]).isPrefixOf (w ++ rest) = false) :
    replaceFrom (label ++ [Byte.colon]) 0 before (w ++ rest) =
      w ++ replaceFrom (label ++ [Byte.colon]) 0 (w.getLast?.or before) rest := by
  induction w generalizing before with
  | nil => rfl
  | cons b w ih =>
      have unquoted := verbatim?_eq_none (plain b List.mem_cons_self) (w ++ rest)
      rw [List.cons_append, replaceFrom_cons unquoted head, getLast?_or_cons]
      cases w with
      | nil => rfl
      | cons c w =>
          obtain ⟨shelter, tail⟩ := List.isChain_cons_cons.mp sheltered
          have next : goesOn (some b) = true ∨
              (label ++ [Byte.colon]).isPrefixOf (c :: w ++ rest) = false := by
            cases opens : opensLabel c with
            | true => exact .inl (shelter opens)
            | false => exact .inr (isPrefixOf_eq_false h opens)
          rw [ih (fun d member => plain d (List.mem_cons_of_mem _ member)) tail next]
          rfl

/-- A name under the label is replaced where nothing goes on in front of it. -/
theorem replaceFrom_name {name : Text} (all : ∀ b ∈ label ++ Byte.colon :: name, isWordByte b = true)
    (noDot : name.getLast? ≠ some Byte.dot) (breaks : Breaks rest) (h : goesOn before = false) :
    replaceFrom (label ++ [Byte.colon]) 0 before (label ++ Byte.colon :: name ++ rest) =
      placeholder ++
        replaceFrom (label ++ [Byte.colon]) 0 (label ++ Byte.colon :: name).getLast? rest := by
  have noDot' : (label ++ Byte.colon :: name).getLast? ≠ some Byte.dot := by
    cases name with
    | nil =>
        rw [List.getLast?_concat]
        decide
    | cons b more => simpa [List.getLast?_append, List.getLast?_cons_cons] using noDot
  have dots : ∀ s : Text, s.getLast? ≠ some Byte.dot → withoutFinalDots s = s := by
    intro s last
    refine List.rdropWhile_eq_self_iff.mpr fun nonempty => ?_
    rw [List.getLast?_eq_some_getLast nonempty] at last
    simpa using last
  have stops : StopsAt isWordByte rest := breaks.weaken fun b stop =>
    Bool.eq_false_iff.mpr fun word => by
      rw [continuesName_of_isWordByte word] at stop
      cases stop
  have word : wordAt before (label ++ Byte.colon :: name ++ rest) = label ++ Byte.colon :: name := by
    simp only [goesOn] at h
    rw [wordAt, h, if_neg (by decide), takeWhile_run all stops, dots _ noDot']
  have found : (label ++ [Byte.colon]).isPrefixOf (label ++ Byte.colon :: name ++ rest) = true := by
    rw [List.isPrefixOf_iff_prefix]
    exact ⟨name ++ rest, by simp⟩
  generalize whole : label ++ Byte.colon :: name = w at all word found ⊢
  cases w with
  | nil => simp at whole
  | cons b w =>
      have unquoted := verbatim?_eq_none (plain_of_isWordByte (all b List.mem_cons_self)) (w ++ rest)
      refine replaceFrom_of_piece ?_
      rw [List.cons_append] at word found
      simp [piece, unquoted, word, found]

end Labels

section Verbatim
variable {marker rest : Text} {before : Option Byte}

theorem quotedRest_escapeByte (b : Byte) (s : Text) :
    quotedRest (escapeByte b ++ s) = escapeByte b ++ quotedRest s := by
  have escaped : ∀ c : Byte, quotedRest (Byte.backslash :: c :: s) =
      Byte.backslash :: c :: quotedRest s := fun _ => rfl
  unfold escapeByte
  split
  · exact escaped b
  · next special =>
    simp only [Bool.or_eq_true, beq_iff_eq, not_or] at special
    split
    · exact escaped _
    split
    · exact escaped _
    split
    · exact escaped _
    · rw [List.singleton_append, quotedRest.eq_def]
      simp [special]

theorem quotedRest_quoted (value : Text) :
    quotedRest (value.flatMap escapeByte ++ Byte.quote :: rest) =
      value.flatMap escapeByte ++ [Byte.quote] := by
  induction value with
  | nil => rw [List.flatMap_nil, List.nil_append, quotedRest.eq_def]; rfl
  | cons b value ih => rw [List.flatMap_cons, List.append_assoc, quotedRest_escapeByte, ih,
      List.append_assoc]

/-- A string in writing is copied. -/
theorem replaceFrom_quoted (value : Text) :
    replaceFrom marker 0 before (quoted value ++ rest) =
      quoted value ++ replaceFrom marker 0 (quoted value).getLast? rest := by
  refine replaceFrom_verbatim (b := Byte.quote) (w := value.flatMap escapeByte ++ [Byte.quote]) ?_
  rw [verbatim?, if_pos (by decide), List.append_assoc, List.singleton_append, quotedRest_quoted]

theorem iriRest?_of_clean {iri : Text} (clean : IsCleanIri iri) :
    iriRest? (iri ++ Byte.greater :: rest) = some (iri ++ [Byte.greater]) := by
  induction iri with
  | nil => rfl
  | cons b iri ih =>
      obtain ⟨allowed, more⟩ := clean b List.mem_cons_self
      rw [List.cons_append, iriRest?, breaksIri_of_clean allowed,
        ih fun c member => clean c (List.mem_cons_of_mem _ member)]
      simp [more]

/-- An IRI between brackets is copied. -/
theorem replaceFrom_angled {iri : Text} (clean : IsCleanIri iri) :
    replaceFrom marker 0 before (Text.angled iri ++ rest) =
      Text.angled iri ++ replaceFrom marker 0 (Text.angled iri).getLast? rest := by
  refine replaceFrom_verbatim (b := Byte.less) (w := iri ++ [Byte.greater]) ?_
  rw [verbatim?, if_neg (by decide), if_pos (by decide), List.append_assoc, List.singleton_append,
    iriRest?_of_clean clean]
  rfl

end Verbatim

end SparqlMetrics.Normal
