import SparqlMetrics.Proofs.Token.Spelling
import SparqlMetrics.Proofs.Text.Byte

/-!
# The lexeme that opens a text

`Lexeme.Opens s l rest` says that the scanner, standing in front of `s`, passes over white space and
comments, reads `l`, which is neither the end nor a fault, and stands in front of `rest`. There is
one lemma for each kind of lexeme in its plain spelling. A name ends where a byte follows that
cannot continue it, which is what `Breaks` says of the text behind.
-/
namespace SparqlMetrics

def Byte.continuesName (b : Byte) : Bool :=
  b.isNameByte || b == Byte.hyphen || b == Byte.dot || b == Byte.colon || b == Byte.percent ||
    b == Byte.backslash

/-- A text whose first byte, if it has one, is not of a class. -/
def StopsAt (p : Byte → Bool) (s : Text) : Prop := ∀ b, s.head? = some b → p b = false

/-- A text that continues no name in front of it. -/
abbrev Breaks (s : Text) : Prop := StopsAt Byte.continuesName s

theorem stopsAt_nil (p : Byte → Bool) : StopsAt p [] := nofun

theorem stopsAt_cons {p : Byte → Bool} {b : Byte} {s : Text} (h : p b = false) :
    StopsAt p (b :: s) := by
  intro c same
  rw [← Option.some.inj same]
  exact h

theorem StopsAt.weaken {p q : Byte → Bool} {s : Text} (h : StopsAt p s)
    (weaker : ∀ b, p b = false → q b = false) : StopsAt q s :=
  fun b same => weaker b (h b same)

theorem StopsAt.takeWhile {p : Byte → Bool} {s : Text} (h : StopsAt p s) : s.takeWhile p = [] := by
  cases s with
  | nil => rfl
  | cons b rest => simp [h b rfl]

theorem StopsAt.dropWhile {p : Byte → Bool} {s : Text} (h : StopsAt p s) : s.dropWhile p = s := by
  cases s with
  | nil => rfl
  | cons b rest => simp [h b rfl]

theorem takeWhile_run {p : Byte → Bool} {run rest : Text} (all : ∀ b ∈ run, p b = true)
    (stop : StopsAt p rest) : (run ++ rest).takeWhile p = run := by
  rw [List.takeWhile_append_of_pos all, stop.takeWhile, List.append_nil]

theorem dropWhile_run {p : Byte → Bool} {run rest : Text} (all : ∀ b ∈ run, p b = true)
    (stop : StopsAt p rest) : (run ++ rest).dropWhile p = rest := by
  rw [List.dropWhile_append_of_pos all, stop.dropWhile]

theorem continuesName_of_isNameByte {b : Byte} (h : b.continuesName = false) :
    b.isNameByte = false := by
  simp only [Byte.continuesName, Bool.or_eq_false_iff] at h
  exact h.1.1.1.1.1

theorem continuesName_of_isLabelByte {b : Byte} (h : b.continuesName = false) :
    Lexeme.isLabelByte b = false := by
  simp only [Byte.continuesName, Bool.or_eq_false_iff] at h
  simp only [Lexeme.isLabelByte, Bool.or_eq_false_iff]
  exact h.1.1.1

namespace Lexeme

/-- The lexeme that opens a text, and the text behind it. -/
def Opens (s : Text) (l : Lexeme) (rest : Text) : Prop :=
  read (skipGap false s) = .ok (l, rest) ∧ l.isTerminal = false

theorem Opens.space {b : Byte} {s rest : Text} {l : Lexeme} (h : Opens s l rest)
    (space : b.isSpace = true) : Opens (b :: s) l rest := by
  simpa [Opens, skipGap, space] using h

theorem Opens.spaces {s rest : Text} {l : Lexeme} (h : Opens s l rest) (n : Nat) :
    Opens (Text.spaces n ++ s) l rest := by
  induction n with
  | zero => exact h
  | succ n ih => exact ih.space (by decide)

/-- A byte that is neither white space nor the start of a comment opens its lexeme. -/
theorem opens_of_readFrom {b : Byte} {s rest : Text} {l : Lexeme}
    (h : readFrom b s = .ok (l, rest)) (full : l.isTerminal = false)
    (solid : (b.isSpace || b == Byte.hash) = false) : Opens (b :: s) l rest := by
  simp only [Bool.or_eq_false_iff] at solid
  refine ⟨?_, full⟩
  simpa [skipGap, solid.1, solid.2, read] using h

/-- A byte of a name opens a number or a word. -/
theorem readFrom_of_isNameByte {b : Byte} (h : b.isNameByte = true) (s : Text) :
    readFrom b s = readRun b s := by
  have classes : b ≠ Byte.caret ∧ b ≠ Byte.pipe ∧ b ≠ Byte.bang ∧ b ≠ Byte.greater ∧
      Symbol.ofByte? b = none ∧ b ≠ Byte.less ∧ b ≠ Byte.question ∧ b ≠ Byte.dollar ∧
      b ≠ Byte.ampersand ∧ b ≠ Byte.atSign ∧ b ≠ Byte.apostrophe ∧ b ≠ Byte.quote ∧
      b ≠ Byte.colon :=
    Byte.forall_of_digits (P := fun b => b.isNameByte = true → b ≠ Byte.caret ∧ b ≠ Byte.pipe ∧
      b ≠ Byte.bang ∧ b ≠ Byte.greater ∧ Symbol.ofByte? b = none ∧ b ≠ Byte.less ∧
      b ≠ Byte.question ∧ b ≠ Byte.dollar ∧ b ≠ Byte.ampersand ∧ b ≠ Byte.atSign ∧
      b ≠ Byte.apostrophe ∧ b ≠ Byte.quote ∧ b ≠ Byte.colon) (by decide) b h
  obtain ⟨caret, pipe, bang, greater, plain, less, question, dollar, ampersand, atSign, apostrophe,
    quote, colon⟩ := classes
  simp [readFrom, readMark?, readSigned?, caret, pipe, bang, greater, plain, less, question, dollar,
    ampersand, atSign, apostrophe, quote, colon]

theorem solid_of_isNameByte {b : Byte} (h : b.isNameByte = true) :
    (b.isSpace || b == Byte.hash) = false :=
  Byte.forall_of_digits (P := fun b => b.isNameByte = true → (b.isSpace || b == Byte.hash) = false)
    (by decide) b h

theorem isDigit_of_isNameStart {b : Byte} (h : b.isNameStart = true) : b.isDigit = false :=
  Byte.forall_of_digits (P := fun b => b.isNameStart = true → b.isDigit = false)
    (by decide) b h

/-- What a word opens is what its reader finds. -/
theorem opens_of_readWord {b : Byte} {s rest : Text} {l : Lexeme} (start : b.isNameStart = true)
    (h : readWord (b :: s) = .ok (l, rest)) (full : l.isTerminal = false) :
    Opens (b :: s) l rest := by
  have name := isNameByte_of_isNameStart start
  refine opens_of_readFrom ?_ full (solid_of_isNameByte name)
  rw [readFrom_of_isNameByte name, readRun]
  simp [isDigit_of_isNameStart start, start, h]

theorem isTerminal_ofWord (word : Text) : (ofWord word).isTerminal = false := by
  unfold ofWord
  split <;> rfl

theorem opens_word {word rest : Text} (h : IsWord word) (breaks : Breaks rest) :
    Opens (word ++ rest) (ofWord word) rest := by
  obtain ⟨start, all⟩ := h
  cases word with
  | nil => simp at start
  | cons b more =>
      have label : ∀ c ∈ b :: more, isLabelByte c = true := by
        intro c hc
        simp [isLabelByte, all c hc]
      have stopLabel := breaks.weaken fun _ => continuesName_of_isLabelByte
      have stopName := breaks.weaken fun _ => continuesName_of_isNameByte
      have noColon : (rest.head? == some Byte.colon) = false := by
        rw [beq_eq_false_iff_ne]
        intro colon
        exact absurd (breaks _ colon) (by decide)
      refine opens_of_readWord (by simpa using start) ?_ (isTerminal_ofWord _)
      show readWord ((b :: more) ++ rest) = _
      rw [readWord]
      simp only [dropWhile_run label stopLabel, noColon, Bool.false_and, Bool.false_eq_true,
        if_false, takeWhile_run all stopName, dropWhile_run all stopName]

theorem opens_keyword (k : Keyword) {t : Text} (breaks : Breaks t) :
    Opens (utf8 k.name ++ t) (.keyword k (utf8 k.name)) t := by
  have word : IsWord (utf8 k.name) := by cases k <;> decide
  have keyword : ofWord (utf8 k.name) = .keyword k (utf8 k.name) := by cases k <;> decide
  exact keyword ▸ opens_word word breaks

theorem opens_iri {iri t : Text} (clean : IsCleanIri iri) :
    Opens (Text.angled iri ++ t) (.iri iri) t := by
  have reference : iriReference? (iri ++ Byte.greater :: t) = some (iri, t) := by
    induction iri with
    | nil => rfl
    | cons b more ih =>
        have head := clean b List.mem_cons_self
        have tail := ih fun c hc => clean c (List.mem_cons_of_mem _ hc)
        simp [iriReference?, head.1, head.2, tail]
  have shape : Text.angled iri ++ t = Byte.less :: (iri ++ Byte.greater :: t) := by
    simp [Text.angled]
  rw [shape]
  refine opens_of_readFrom ?_ rfl (by decide)
  have signed : readFrom Byte.less (iri ++ Byte.greater :: t) =
      .ok (readLess (iri ++ Byte.greater :: t)) := rfl
  rw [signed, readLess, reference]

theorem localName_of_breaks {blank : Bool} {s : Text} (breaks : Breaks s) :
    localName blank s = ([], s) := by
  cases s with
  | nil => rfl
  | cons b rest =>
      have stops := breaks b rfl
      simp only [Byte.continuesName, Bool.or_eq_false_iff] at stops
      obtain ⟨⟨⟨⟨⟨name, hyphen⟩, dot⟩, colon⟩, percent⟩, backslash⟩ := stops
      rw [localName.eq_def]
      simp [name, hyphen, dot, colon, percent, backslash]

/-- A local name is read alike in front of more text, if what stands behind it breaks it. -/
theorem localName_append {blank : Bool} {s name rest t : Text}
    (h : localName blank s = (name, rest)) (breaks : Breaks (rest ++ t)) :
    localName blank (s ++ t) = (name, rest ++ t) := by
  fun_induction localName blank s generalizing name with
  | case2 b escape escaped more tail behind found ih =>
      obtain ⟨rfl, rfl⟩ := Prod.mk.inj h
      rw [List.cons_append, List.cons_append, localName.eq_def]
      simp [escape, ih found]
  | case4 b plain percent high low more hex tail behind found ih =>
      obtain ⟨rfl, rfl⟩ := Prod.mk.inj h
      rw [List.cons_append, List.cons_append, List.cons_append, localName.eq_def]
      simp [plain, percent, hex, ih found]
  | case7 b more plain noPercent continues tail behind found ih =>
      obtain ⟨rfl, rfl⟩ := Prod.mk.inj h
      rw [List.cons_append, localName.eq_def]
      simp [plain, noPercent, continues, ih found]
  | case9 b more plain noPercent stops dot tail behind nonempty found ih =>
      obtain ⟨rfl, rfl⟩ := Prod.mk.inj h
      rw [List.cons_append, localName.eq_def]
      simp only [plain, noPercent, stops, dot, ih found, Bool.false_eq_true, if_false, if_true]
  | _ =>
      -- The name ends here.
      obtain ⟨rfl, rfl⟩ := Prod.mk.inj h
      exact localName_of_breaks breaks

theorem split_of_readPrefixedName {first s label name rest : Text}
    (h : readPrefixedName first s = .ok (.prefixedName label name, rest)) :
    first = label ∧ localName false s = (name, rest) := by
  unfold readPrefixedName at h
  split at h
  · split at h <;> cases h
  · cases found : localName false s with
    | mk tail behind =>
        simp only [found, Except.ok.injEq, Prod.mk.injEq, prefixedName.injEq] at h
        obtain ⟨⟨rfl, rfl⟩, rfl⟩ := h
        exact ⟨rfl, rfl⟩

theorem split_of_readWord {s label name rest : Text}
    (h : readWord s = .ok (.prefixedName label name, rest)) :
    ∃ tail, s = label ++ Byte.colon :: tail ∧ localName false tail = (name, rest) := by
  unfold readWord at h
  simp only at h
  split at h
  · next colon =>
    obtain ⟨rfl, found⟩ := split_of_readPrefixedName h
    simp only [Bool.and_eq_true, beq_iff_eq] at colon
    refine ⟨(s.dropWhile isLabelByte).tail, ?_, found⟩
    cases drop : s.dropWhile isLabelByte with
    | nil => simp [drop] at colon
    | cons b tail =>
        rw [drop] at colon
        rw [← show b = Byte.colon from Option.some.inj colon.1, List.tail_cons, ← drop,
          List.takeWhile_append_dropWhile]
  · unfold ofWord at h
    split at h <;> cases h

theorem markOf_ne_prefixedName (second : Byte) (both single : Symbol) (s label name : Text) :
    (markOf second both single s).1 ≠ .prefixedName label name := by
  unfold markOf
  split <;> simp

theorem readMark?_ne_prefixedName {b : Byte} {s : Text} {found : Lexeme × Text}
    (h : readMark? b s = some found) (label name : Text) :
    found.1 ≠ .prefixedName label name := by
  unfold readMark? at h
  split at h
  · exact Option.some.inj h ▸ markOf_ne_prefixedName _ _ _ _ _ _
  split at h
  · exact Option.some.inj h ▸ markOf_ne_prefixedName _ _ _ _ _ _
  split at h
  · exact Option.some.inj h ▸ markOf_ne_prefixedName _ _ _ _ _ _
  split at h
  · exact Option.some.inj h ▸ markOf_ne_prefixedName _ _ _ _ _ _
  · obtain ⟨mark, _, same⟩ := Option.map_eq_some_iff.mp h
    simp [← same]

theorem readVariable?_ne_prefixedName (s label name rest : Text) :
    readVariable? s ≠ some (.prefixedName label name, rest) := by
  unfold readVariable?
  simp only
  split <;> simp

/-- Among the lexemes told by a sign, a prefixed name is told by its colon. -/
theorem readSigned?_prefixedName {b : Byte} {s label name rest : Text}
    (h : readSigned? b s = some (.ok (.prefixedName label name, rest))) : b = Byte.colon := by
  have unnamed := readVariable?_ne_prefixedName s label name rest
  unfold readSigned? at h
  split at h
  · have same := congrArg Prod.fst (Except.ok.inj (Option.some.inj h))
    unfold readLess at same
    split at same
    · cases same
    · exact absurd same (markOf_ne_prefixedName _ _ _ _ _ _)
  split at h
  · cases found : readVariable? s with
    | none => simp [found] at h
    | some pair => simp_all
  split at h
  · cases found : readVariable? s with
    | none => simp [found, unexpected] at h
    | some pair => simp_all
  split at h
  · split at h <;> simp [unexpected] at h
  split at h
  · unfold readLanguageTag at h
    simp only [Option.some.injEq] at h
    split at h <;> simp at h
  split at h
  · unfold readString at h
    simp only [Option.some.injEq] at h
    split at h <;> simp at h
  split at h
  · next colon => exact beq_iff_eq.mp colon
  · cases h

theorem readNumber_ne_prefixedName (s label name rest : Text) :
    readNumber s ≠ (.prefixedName label name, rest) := by
  unfold readNumber
  simp only
  split <;> simp

/-- A prefixed name is its label, the colon and what is read as the local name. -/
theorem split_of_read {s label name rest : Text}
    (h : read s = .ok (.prefixedName label name, rest)) :
    ∃ tail, s = label ++ Byte.colon :: tail ∧ localName false tail = (name, rest) := by
  cases s with
  | nil => cases h
  | cons b s =>
      change readFrom b s = _ at h
      unfold readFrom at h
      split at h
      · next mark =>
        rw [Except.ok.inj h] at mark
        exact absurd rfl (readMark?_ne_prefixedName mark label name)
      · cases signed : readSigned? b s with
        | some result =>
            rw [signed, Option.getD_some] at h
            rw [h] at signed
            obtain rfl := readSigned?_prefixedName signed
            have found : readPrefixedName [] s = .ok (.prefixedName label name, rest) :=
              Option.some.inj signed
            obtain ⟨rfl, tail⟩ := split_of_readPrefixedName found
            exact ⟨s, rfl, tail⟩
        | none =>
            rw [signed, Option.getD_none] at h
            unfold readRun at h
            split at h
            · exact absurd (Except.ok.inj h) (readNumber_ne_prefixedName _ _ _ _)
            split at h
            · exact split_of_readWord h
            · cases h

theorem readWord_prefixedName {b : Byte} {more s : Text} (h : IsPrefixLabel (b :: more)) :
    b.isNameStart = true ∧
      readWord (b :: more ++ Byte.colon :: s) = readPrefixedName (b :: more) s := by
  rcases h with absent | ⟨start, all, noDot, _⟩
  · cases absent
  · have stop : StopsAt isLabelByte (Byte.colon :: s) := stopsAt_cons (by decide)
    have isLabel : ((b :: more).getLast? != some Byte.dot) = true := by simpa using noDot
    refine ⟨by simpa using start, ?_⟩
    rw [readWord]
    simp only [takeWhile_run all stop, dropWhile_run all stop, isLabel, List.head?_cons,
      beq_self_eq_true, Bool.and_self, if_true, List.tail_cons]

theorem readPrefixedName_eq {label s name rest : Text} (h : IsPrefixLabel label)
    (tail : localName false s = (name, rest)) :
    readPrefixedName label s = .ok (.prefixedName label name, rest) := by
  have other : label ≠ [Byte.underscore] := by
    rcases h with rfl | h
    · decide
    · exact h.2.2.2
  simp [readPrefixedName, other, tail]

theorem read_prefixedName {label s name rest : Text} (h : IsPrefixLabel label)
    (tail : localName false s = (name, rest)) :
    read (label ++ Byte.colon :: s) = .ok (.prefixedName label name, rest) := by
  have named := readPrefixedName_eq h tail
  cases label with
  | nil => exact named
  | cons b more =>
      obtain ⟨start, word⟩ := readWord_prefixedName (s := s) h
      show readFrom b (more ++ Byte.colon :: s) = _
      rw [readFrom_of_isNameByte (isNameByte_of_isNameStart start), readRun]
      simp only [isDigit_of_isNameStart start, start, Bool.false_eq_true, if_false, if_true]
      exact word.trans named

theorem opens_prefixedName {label s name rest : Text} (h : IsPrefixLabel label)
    (tail : localName false s = (name, rest)) :
    Opens (label ++ Byte.colon :: s) (.prefixedName label name) rest := by
  have found := read_prefixedName h tail
  cases label with
  | nil => exact opens_of_readFrom found rfl (by decide)
  | cons b more =>
      have start := (readWord_prefixedName (s := s) h).1
      exact opens_of_readFrom found rfl (solid_of_isNameByte (isNameByte_of_isNameStart start))

/-- A prefixed name that is a whole text is read alike in front of a text that breaks it. -/
theorem opens_prefixedName_append {s label name rest : Text}
    (h : read s = .ok (.prefixedName label name, [])) (breaks : Breaks rest) :
    Opens (s ++ rest) (.prefixedName label name) rest := by
  obtain ⟨tail, rfl, found⟩ := split_of_read h
  have opens := opens_prefixedName (spelled_read h) (localName_append found breaks)
  rwa [List.append_assoc, List.cons_append]

theorem localName_eq_nil {s : Text} (h : localName false s = ([], [])) : s = [] := by
  fun_induction localName false s with
  | case1 => rfl
  | _ => simp at h

end Lexeme

end SparqlMetrics
