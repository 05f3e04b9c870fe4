import SparqlMetrics.Proofs.Normal.Scan
import SparqlMetrics.Proofs.Reading.Terms

/-!
# Words of a written query

A word is what one lexeme is written as. `Lexeme.WrittenAs` says of a word, with the bytes that it
shuns behind it, that the scanner of tokens reads the lexeme there and that the scanner of names
passes it, and which bytes it begins and ends with. There is one lemma for each kind of lexeme that
is written. Where no byte is shunned, the word may stand in front of every text.
-/
namespace SparqlMetrics

open SparqlMetrics.Normal

namespace Lexeme

/-- What stands for a word once the names under a label are replaced: the placeholder for such a
name, unless a word goes on in front of it. -/
def standIn (label : Text) (before : Option Byte) (word : Text) : Lexeme → Text
  | .prefixedName own _ => if own = label ∧ goesOn before = false then placeholder else word
  | _ => word

/-- How a lexeme is written: a word and the bytes that may not stand behind it. -/
structure WrittenAs (ns : Namespaces) (l : Lexeme) (word : Text) (shuns : Byte → Bool) : Prop where
  opens : ∀ {rest}, StopsAt shuns rest → Opens (word ++ rest) l rest
  replaced : ∀ {label rest} (before : Option Byte), IsPrefixLabel label → StopsAt shuns rest →
    replaceFrom (label ++ [Byte.colon]) 0 before (word ++ rest) =
      l.standIn label before word ++ replaceFrom (label ++ [Byte.colon]) 0 word.getLast? rest
  solid : ∀ b, word.head? = some b ∨ word.getLast? = some b → (b.isSpace || b == Byte.hash) = false
  oneLine : Byte.newline ∉ word
  admitsSpace : shuns Byte.space = false
  /-- What a name may follow, a placeholder may. -/
  admitsBracket : shuns Byte.less = true → ∀ b, b.continuesName = true → shuns b = true
  /-- A word that ends with a bracket is an IRI or does not end its line. -/
  bracket : word.getLast? = some Byte.greater →
    shuns Byte.newline = true ∨ ∃ iri, IsCleanIri iri ∧ word = Text.angled iri ∧ l = .iri iri
  /-- Only a minus sign is a word that goes on into a name behind it. -/
  joins : goesOn word.getLast? = true →
    l = .symbol .minus ∨ ∀ b, b.continuesName = true → shuns b = true
  minus : l = .symbol .minus → word = [Byte.hyphen]
  name : ∀ label localName, l = .prefixedName label localName →
    (∃ entry ∈ ns.entries, entry.1 = label) ∧ ∀ b, word.head? = some b → b.continuesName = true

/-- A byte of the words that no sign is. -/
def isRunByte (b : Byte) : Bool :=
  isWordByte b || b == Byte.question || b == Byte.atSign || b == Byte.plus

theorem apart_of_isRunByte {b : Byte} (h : isRunByte b = true) :
    (b.isSpace || b == Byte.hash) = false ∧ b ≠ Byte.newline ∧ b ≠ Byte.greater ∧
      b ≠ Byte.quote ∧ b ≠ Byte.less :=
  Byte.forall_of_digits (P := fun b => isRunByte b = true →
    (b.isSpace || b == Byte.hash) = false ∧ b ≠ Byte.newline ∧ b ≠ Byte.greater ∧
      b ≠ Byte.quote ∧ b ≠ Byte.less) (by decide) b h

section Runs
variable {ns : Namespaces} {l : Lexeme} {word : Text}

/-- Whether no name is replaced for a lexeme, and no sign joins one. -/
def isPlain : Lexeme → Bool
  | .prefixedName _ _ => false
  | .symbol .minus => false
  | _ => true

theorem standIn_of_isPlain (h : l.isPlain = true) (label : Text) (before : Option Byte) (word : Text) :
    l.standIn label before word = word := by
  cases l <;> first | rfl | cases h

/-- How a run of bytes that no name may follow is written. -/
theorem writtenAs_run (isRun : ∀ b ∈ word, isRunByte b = true)
    (opens : ∀ {rest}, Breaks rest → Opens (word ++ rest) l rest)
    (replaced : ∀ {label rest} (before : Option Byte), IsPrefixLabel label → Breaks rest →
      replaceFrom (label ++ [Byte.colon]) 0 before (word ++ rest) =
        l.standIn label before word ++ replaceFrom (label ++ [Byte.colon]) 0 word.getLast? rest)
    (notMinus : l ≠ .symbol .minus)
    (name : ∀ label localName, l = .prefixedName label localName →
      (∃ entry ∈ ns.entries, entry.1 = label) ∧ ∀ b, word.head? = some b → b.continuesName = true) :
    l.WrittenAs ns word Byte.continuesName where
  opens := opens
  replaced := replaced
  solid b h := by
    refine (apart_of_isRunByte (isRun b ?_)).1
    exact h.elim List.mem_of_head? List.mem_of_getLast?
  oneLine member := (apart_of_isRunByte (isRun _ member)).2.1 rfl
  admitsSpace := by decide
  admitsBracket less := absurd less (by decide)
  bracket last := absurd rfl (apart_of_isRunByte (isRun _ (List.mem_of_getLast? last))).2.2.1
  joins _ := .inr fun _ => id
  minus same := absurd same notMinus
  name := name

/-- A run of bytes that all go on is written as it is, if no label stands in front of it. -/
theorem writtenAs_of_sheltered (plain : l.isPlain = true) (isRun : ∀ b ∈ word, isRunByte b = true)
    (nonempty : word ≠ [])
    (sheltered : word.IsChain fun a b => opensLabel b = true → continuesToken a = true)
    (opens : ∀ {rest}, Breaks rest → Opens (word ++ rest) l rest)
    (noLabel : ∀ {label rest}, IsPrefixLabel label → Breaks rest →
      (label ++ [Byte.colon]).isPrefixOf (word ++ rest) = false) :
    l.WrittenAs ns word Byte.continuesName := by
  refine writtenAs_run isRun opens (fun before isLabel breaks => ?_) ?_ ?_
  · rw [standIn_of_isPlain plain, replaceFrom_sheltered isLabel
      (fun b member => (apart_of_isRunByte (isRun b member)).2.2.2) sheltered
      (.inr (noLabel isLabel breaks))]
    cases word with
    | nil => exact absurd rfl nonempty
    | cons b word => simp [List.getLast?_cons]
  · rintro rfl
    cases plain
  · rintro label localName rfl
    cases plain

/-- Where every byte goes on, each byte stands behind one that does. -/
theorem isChain_of_continues (h : ∀ b ∈ word, continuesToken b = true) :
    word.IsChain fun a b => opensLabel b = true → continuesToken a = true := by
  refine (List.pairwise_of_forall_mem_list fun a member b _ => ?_).isChain
  exact fun _ => h a member

theorem isChain_of_closed (h : ∀ b ∈ word, opensLabel b = false) :
    word.IsChain fun a b => opensLabel b = true → continuesToken a = true := by
  refine (List.pairwise_of_forall_mem_list fun _ _ b member opens => ?_).isChain
  rw [h b member] at opens
  cases opens

theorem isRunByte_of_isWordByte {b : Byte} (h : isWordByte b = true) : isRunByte b = true := by
  simp [isRunByte, h]

theorem isWordByte_of_isNameByte {b : Byte} (h : b.isNameByte = true) : isWordByte b = true :=
  isWordByte_of_isLabelByte (by simp [isLabelByte, h])

/-- A byte that opens no label and has a run of name bytes behind it. -/
theorem writtenAs_sigil {b : Byte} {name : Text} (plain : l.isPlain = true)
    (sigil : isRunByte b = true ∧ continuesToken b = true ∧ opensLabel b = false)
    (all : ∀ c ∈ name, isWordByte c = true)
    (opens : ∀ {rest}, Breaks rest → Opens (b :: name ++ rest) l rest) :
    l.WrittenAs ns (b :: name) Byte.continuesName := by
  have run : ∀ c ∈ b :: name, isRunByte c = true ∧ continuesToken c = true := by
    refine List.forall_mem_cons.mpr ⟨⟨sigil.1, sigil.2.1⟩, fun c member => ?_⟩
    have word := all c member
    exact ⟨isRunByte_of_isWordByte word, continuesToken_of_isWordByte word⟩
  exact writtenAs_of_sheltered plain (fun c member => (run c member).1) (List.cons_ne_nil _ _)
    (isChain_of_continues fun c member => (run c member).2) opens
    fun isLabel _ => isPrefixOf_eq_false isLabel sigil.2.2

theorem writtenAs_variable {name : Text} (h : IsVariableName name) :
    (Lexeme.variableName name).WrittenAs ns (Byte.question :: name) Byte.continuesName :=
  writtenAs_sigil rfl (by decide) (fun c member => isWordByte_of_isNameByte (h.2 c member))
    fun breaks => opens_variable h (breaks.weaken fun _ => continuesName_of_isNameByte)

theorem writtenAs_languageTag {tag : Text} (h : IsLanguageTag tag) :
    (Lexeme.languageTag tag).WrittenAs ns (Byte.atSign :: tag) Byte.continuesName := by
  refine writtenAs_sigil rfl (by decide) (fun c member => ?_) fun breaks => opens_languageTag h breaks
  exact Byte.forall_of_digits (P := fun b => isTagByte b = true → isWordByte b = true)
    (by decide) c (h.2 c member)

theorem writtenAs_dot : (Lexeme.symbol .dot).WrittenAs ns [Byte.dot] Byte.continuesName :=
  writtenAs_sigil rfl (by decide) nofun fun _ => opens_byte (by decide) _

theorem writtenAs_question :
    (Lexeme.symbol .question).WrittenAs ns [Byte.question] Byte.continuesName :=
  writtenAs_sigil rfl (by decide) nofun
    fun breaks => opens_question (breaks.weaken fun _ => continuesName_of_isNameByte)

theorem writtenAs_word (h : IsWord word) : (ofWord word).WrittenAs ns word Byte.continuesName := by
  obtain ⟨start, all⟩ := h
  have isWord : ∀ c ∈ word, isWordByte c = true := fun c member =>
    isWordByte_of_isNameByte (all c member)
  have plain : (ofWord word).isPlain = true := by
    unfold ofWord
    split <;> rfl
  have nonempty : word ≠ [] := by
    rintro rfl
    cases start
  exact writtenAs_of_sheltered plain (fun c member => isRunByte_of_isWordByte (isWord c member))
    nonempty
    (isChain_of_continues fun c member => continuesToken_of_isWordByte (isWord c member))
    (opens_word ⟨start, all⟩)
    fun isLabel breaks => isPrefixOf_run isLabel (fun c member => by simp [isLabelByte, all c member])
      breaks

theorem writtenAs_keyword (k : Keyword) :
    (Lexeme.keyword k (utf8 k.name)).WrittenAs ns (utf8 k.name) Byte.continuesName := by
  have word : IsWord (utf8 k.name) := by cases k <;> decide
  have keyword : ofWord (utf8 k.name) = .keyword k (utf8 k.name) := by cases k <;> decide
  exact keyword ▸ writtenAs_word word

theorem writtenAs_blankLabel {label : Text} (h : IsBlankLabel label) :
    (Lexeme.blankNodeLabel label).WrittenAs ns (utf8 "_:" ++ label) Byte.continuesName := by
  have marks : utf8 "_:" = [Byte.underscore, Byte.colon] := by decide
  have isWord : ∀ c ∈ utf8 "_:" ++ label, isWordByte c = true := by
    rw [marks]
    refine List.forall_mem_cons.mpr ⟨by decide, List.forall_mem_cons.mpr ⟨by decide, ?_⟩⟩
    exact fun c member => isWordByte_of_isLabelByte (h.2.1 c member)
  refine writtenAs_of_sheltered rfl (fun c member => isRunByte_of_isWordByte (isWord c member))
    (by rw [marks]; exact List.cons_ne_nil _ _)
    (isChain_of_continues fun c member => continuesToken_of_isWordByte (isWord c member))
    (fun breaks => opens_blankLabel h breaks) fun {own rest} isLabel _ => ?_
  have other : own ≠ [Byte.underscore] := by
    rcases isLabel with rfl | isLabel
    · decide
    · exact isLabel.2.2.2
  rw [marks]
  exact isPrefixOf_name isLabel (by decide) other _

/-- The bytes of a number: those before the sign of an exponent go on, those from it on open no
label. -/
theorem parts_of_isNumeral {kind : NumberKind} (h : IsNumeral kind word) :
    ∃ front back, word = front ++ back ∧ (∀ b ∈ front, isWordByte b = true) ∧
      ∀ b ∈ back, isRunByte b = true ∧ opensLabel b = false := by
  have digit : ∀ {digits : Text}, IsDigits digits →
      ∀ b ∈ digits, isWordByte b = true ∧ isRunByte b = true ∧ opensLabel b = false := by
    intro digits run b member
    exact Byte.forall_of_digits (P := fun b => b.isDigit = true →
      isWordByte b = true ∧ isRunByte b = true ∧ opensLabel b = false) (by decide) b
      (run.2 b member)
  have mantissa : ∀ {kind : NumberKind} {m : Text}, IsMantissa kind m →
      ∀ b ∈ m, isWordByte b = true := by
    intro kind m hm
    cases hm with
    | integer run => exact fun b member => (digit run b member).1
    | decimal run run' =>
        refine List.forall_mem_append.mpr ⟨fun b member => (digit run b member).1, ?_⟩
        exact List.forall_mem_cons.mpr ⟨by decide, fun b member => (digit run' b member).1⟩
  cases h with
  | plain hm => exact ⟨word, [], (List.append_nil _).symm, mantissa hm, nofun⟩
  | @double kind m sign digits e hm letter hsign run =>
      refine ⟨m ++ [e], sign ++ digits, by simp, ?_, ?_⟩
      · refine List.forall_mem_append.mpr ⟨mantissa hm, List.forall_mem_singleton.mpr ?_⟩
        rcases letter with rfl | rfl <;> decide
      · refine List.forall_mem_append.mpr ⟨?_, fun b member => (digit run b member).2⟩
        rcases hsign with rfl | rfl | rfl
        · exact List.forall_mem_nil _
        · exact List.forall_mem_singleton.mpr (by decide)
        · exact List.forall_mem_singleton.mpr (by decide)

theorem writtenAs_number {kind : NumberKind} (h : IsNumeral kind word) :
    (Lexeme.number kind word).WrittenAs ns word Byte.continuesName := by
  obtain ⟨b, more, same, digit⟩ := isDigit_head_numeral h
  have closed : opensLabel b = false :=
    Byte.forall_of_digits (P := fun b => b.isDigit = true → opensLabel b = false) (by decide) b
      digit
  obtain ⟨front, back, cut, goes, stays⟩ := parts_of_isNumeral h
  have isRun : ∀ c ∈ word, isRunByte c = true := by
    rw [cut]
    exact List.forall_mem_append.mpr
      ⟨fun c member => isRunByte_of_isWordByte (goes c member), fun c member => (stays c member).1⟩
  have sheltered : word.IsChain fun a b => opensLabel b = true → continuesToken a = true := by
    rw [cut]
    refine List.isChain_append.mpr ⟨isChain_of_continues fun c member =>
      continuesToken_of_isWordByte (goes c member),
      isChain_of_closed fun c member => (stays c member).2, fun _ _ c first opens => ?_⟩
    rw [(stays c (List.mem_of_head? first)).2] at opens
    cases opens
  refine writtenAs_of_sheltered rfl isRun (by rw [same]; exact List.cons_ne_nil _ _) sheltered
    (fun breaks => opens_number h breaks) fun isLabel _ => ?_
  rw [same]
  exact isPrefixOf_eq_false isLabel closed

/-- A name under a declared label is written as the label, a colon and the rest. -/
theorem writtenAs_prefixedName {entry : Text × Text} {name : Text} (isLabel : IsPrefixLabel entry.1)
    (member : entry ∈ ns.entries) (isPlain : isPlainLocalName name = true) :
    (Lexeme.prefixedName entry.1 name).WrittenAs ns (entry.1 ++ Byte.colon :: name)
      Byte.continuesName := by
  obtain ⟨all, noDot⟩ := run_of_isPlainLocalName isPlain
  have labelBytes : ∀ c ∈ entry.1, isLabelByte c = true := by
    rcases isLabel with noLabel | isLabel
    · rw [noLabel]
      nofun
    · exact isLabel.2.1
  have isWord : ∀ c ∈ entry.1 ++ Byte.colon :: name, isWordByte c = true :=
    List.forall_mem_append.mpr ⟨fun c member => isWordByte_of_isLabelByte (labelBytes c member),
      List.forall_mem_cons.mpr ⟨by decide, fun c member => isWordByte_of_isLabelByte (all c member)⟩⟩
  have goesOn : ∀ c ∈ entry.1 ++ Byte.colon :: name, continuesToken c = true :=
    fun c member => continuesToken_of_isWordByte (isWord c member)
  have isRun : ∀ c ∈ entry.1 ++ Byte.colon :: name, isRunByte c = true :=
    fun c member => isRunByte_of_isWordByte (isWord c member)
  have last : ∀ before, (entry.1 ++ Byte.colon :: name).getLast?.or before =
      (entry.1 ++ Byte.colon :: name).getLast? := by
    intro before
    rw [List.getLast?_append]
    simp [List.getLast?_cons]
  refine writtenAs_run isRun (fun breaks => ?_) (fun {label rest} before isLabel' breaks => ?_)
    nofun ?_
  · rw [List.append_assoc, List.cons_append]
    exact opens_prefixedName isLabel (localName_run all noDot breaks)
  · rw [standIn]
    split
    · next both =>
      rw [← both.1]
      exact replaceFrom_name isWord noDot breaks both.2
    · next kept =>
      rw [replaceFrom_sheltered isLabel' (fun c member => (apart_of_isRunByte (isRun c member)).2.2.2)
        (isChain_of_continues goesOn) ?_, last]
      by_cases same : entry.1 = label
      · exact .inl (by simpa [same] using kept)
      · rw [List.append_assoc, List.cons_append]
        exact .inr (isPrefixOf_name isLabel' (colon_not_mem isLabel) (Ne.symm same) _)
  · intro label localName same
    cases same
    refine ⟨⟨entry, member, rfl⟩, fun b first => continuesName_of_isWordByte (isWord b ?_)⟩
    exact List.mem_of_head? first

end Runs

section Others
variable {ns : Namespaces} {l : Lexeme}

theorem newline_not_mem_of_clean {iri : Text} (clean : IsCleanIri iri) : Byte.newline ∉ iri :=
  fun member => absurd (clean _ member).1 (by decide)

theorem writtenAs_iri {iri : Text} (clean : IsCleanIri iri) :
    (Lexeme.iri iri).WrittenAs ns (Text.angled iri) fun _ => false where
  opens _ := opens_iri clean
  replaced _ _ _ := replaceFrom_angled clean
  solid b h := by
    have ends : b = Byte.less ∨ b = Byte.greater := by
      rcases h with h | h
      · exact .inl (Option.some.inj h).symm
      · rw [Text.angled, List.getLast?_concat] at h
        exact .inr (Option.some.inj h).symm
    rcases ends with rfl | rfl <;> decide
  oneLine := by
    have others : Byte.newline ≠ Byte.less ∧ Byte.newline ≠ Byte.greater := by decide
    simpa [Text.angled, others] using newline_not_mem_of_clean clean
  admitsSpace := rfl
  admitsBracket := nofun
  bracket _ := .inr ⟨iri, clean, rfl, rfl⟩
  joins goes := by
    rw [Text.angled, List.getLast?_concat] at goes
    exact absurd goes (by decide)
  minus := nofun
  name := nofun

theorem newline_not_mem_quoted (value : Text) : Byte.newline ∉ quoted value := by
  have escaped : ∀ b, Byte.newline ∉ escapeByte b := by
    intro b
    exact Byte.forall_of_digits (P := fun b => Byte.newline ∉ escapeByte b) (by decide) b
  have other : Byte.newline ≠ Byte.quote := by decide
  simp [quoted, escaped, other]

theorem writtenAs_string (value : Text) :
    (Lexeme.string value false).WrittenAs ns (quoted value) (· == Byte.quote) where
  opens avoids := opens_quoted avoids
  replaced _ _ _ := replaceFrom_quoted value
  solid b h := by
    have ends : b = Byte.quote := by
      rcases h with h | h
      · exact (Option.some.inj h).symm
      · rw [quoted, List.getLast?_concat] at h
        exact (Option.some.inj h).symm
    rw [ends]
    decide
  oneLine := newline_not_mem_quoted value
  admitsSpace := by decide
  admitsBracket less := absurd less (by decide)
  bracket last := by
    rw [quoted, List.getLast?_concat] at last
    exact absurd last (by decide)
  joins goes := by
    rw [quoted, List.getLast?_concat] at goes
    exact absurd goes (by decide)
  minus := nofun
  name := nofun

end Others

section Signs
variable {ns : Namespaces} {s : Symbol} {word rest : Text} {shuns : Byte → Bool}

/-- A byte of a sign that opens no IRI. -/
def isSignByte (b : Byte) : Bool :=
  !(b.isSpace || b == Byte.hash) && b != Byte.quote && b != Byte.less && !opensLabel b

theorem replaceFrom_signs (nonempty : word ≠ []) (signs : word.all isSignByte = true) {label : Text}
    (before : Option Byte) (isLabel : IsPrefixLabel label) :
    replaceFrom (label ++ [Byte.colon]) 0 before (word ++ rest) =
      word ++ replaceFrom (label ++ [Byte.colon]) 0 word.getLast? rest := by
  have sign : ∀ b ∈ word, (b ≠ Byte.quote ∧ b ≠ Byte.less) ∧ opensLabel b = false := by
    intro b member
    have isSign := List.all_eq_true.mp signs b member
    simp only [isSignByte, Bool.and_eq_true, bne_iff_ne, ne_eq, Bool.not_eq_true'] at isSign
    exact ⟨⟨isSign.1.1.2, isSign.1.2⟩, isSign.2⟩
  cases word with
  | nil => exact absurd rfl nonempty
  | cons b word =>
      rw [replaceFrom_sheltered isLabel (fun c member => (sign c member).1)
        (isChain_of_closed fun c member => (sign c member).2)
        (.inr (isPrefixOf_eq_false isLabel (sign b List.mem_cons_self).2))]
      simp [List.getLast?_cons]

/-- What is asked of the ends of a sign and of the bytes that it shuns. -/
structure EndsSign (s : Symbol) (word : Text) (shuns : Byte → Bool) : Prop where
  solid : word.all (fun b => !(b.isSpace || b == Byte.hash)) = true
  admitsSpace : shuns Byte.space = false
  admitsBracket : shuns Byte.less = true → ∀ b, b.continuesName = true → shuns b = true
  bracket : word.getLast? = some Byte.greater → shuns Byte.newline = true
  joins : goesOn word.getLast? = true →
    s = .minus ∨ ∀ b, b.continuesName = true → shuns b = true
  minus : s = .minus → word = [Byte.hyphen]

theorem writtenAs_symbol (ends : EndsSign s word shuns)
    (opens : ∀ {rest}, StopsAt shuns rest → Opens (word ++ rest) (.symbol s) rest)
    (copied : ∀ {label rest : Text} (before : Option Byte), IsPrefixLabel label →
      StopsAt shuns rest → replaceFrom (label ++ [Byte.colon]) 0 before (word ++ rest) =
        word ++ replaceFrom (label ++ [Byte.colon]) 0 word.getLast? rest) :
    (Lexeme.symbol s).WrittenAs ns word shuns where
  opens := opens
  replaced := copied
  solid b h := by
    have solid := List.all_eq_true.mp ends.solid b (h.elim List.mem_of_head? List.mem_of_getLast?)
    rwa [Bool.not_eq_true'] at solid
  oneLine member := absurd (List.all_eq_true.mp ends.solid _ member) (by decide)
  admitsSpace := ends.admitsSpace
  admitsBracket := ends.admitsBracket
  bracket last := .inl (ends.bracket last)
  joins goes := (ends.joins goes).imp_left (congrArg Lexeme.symbol)
  minus same := ends.minus (Lexeme.symbol.inj same)
  name := nofun

/-- A mark of one byte that needs at most to know that a certain byte does not follow. -/
theorem writtenAs_mark {b : Byte} (sign : isSignByte b = true)
    (ends : b ≠ Byte.greater ∧ (continuesToken b = true → s = .minus) ∧
      (s = .minus → b = Byte.hyphen))
    (admits : shuns Byte.space = false ∧ shuns Byte.less = false)
    (opens : ∀ {rest}, StopsAt shuns rest → Opens (b :: rest) (.symbol s) rest) :
    (Lexeme.symbol s).WrittenAs ns [b] shuns := by
  refine writtenAs_symbol ?_ opens fun before isLabel _ =>
    replaceFrom_signs (List.cons_ne_nil _ _) (by simpa using sign) before isLabel
  have solid : (b.isSpace || b == Byte.hash) = false := by
    simp only [isSignByte, Bool.and_eq_true, Bool.not_eq_true'] at sign
    exact sign.1.1.1
  exact {
    solid := by rw [List.all_cons, solid]; rfl
    admitsSpace := admits.1
    admitsBracket := fun less => absurd (admits.2.symm.trans less) (by decide)
    bracket := fun last => absurd (Option.some.inj last) ends.1
    joins := fun goes => .inl (ends.2.1 goes)
    minus := fun same => by rw [ends.2.2 same] }

/-- A byte that is a mark whatever follows it. -/
theorem writtenAs_byte {b : Byte} (h : Symbol.ofByte? b = some s ∧ isSignByte b = true ∧
    b ≠ Byte.greater ∧ (continuesToken b = true → s = .minus) ∧ (s = .minus → b = Byte.hyphen)) :
    (Lexeme.symbol s).WrittenAs ns [b] fun _ => false :=
  writtenAs_mark h.2.1 h.2.2 ⟨rfl, rfl⟩ fun _ => opens_byte h.1 _

theorem writtenAs_bang : (Lexeme.symbol .bang).WrittenAs ns [Byte.bang] (· == Byte.equals) :=
  writtenAs_mark (by decide) (by decide) (by decide) opens_bang

theorem writtenAs_caret : (Lexeme.symbol .caret).WrittenAs ns [Byte.caret] (· == Byte.caret) :=
  writtenAs_mark (by decide) (by decide) (by decide) opens_caret

theorem writtenAs_pipe : (Lexeme.symbol .pipe).WrittenAs ns [Byte.pipe] (· == Byte.pipe) :=
  writtenAs_mark (by decide) (by decide) (by decide) opens_pipe

theorem writtenAs_doubleCaret :
    (Lexeme.symbol .doubleCaret).WrittenAs ns (utf8 "^^") fun _ => false :=
  writtenAs_symbol
    ⟨by decide, rfl, nofun, by decide, fun goes => absurd goes (by decide), by decide⟩
    (fun _ => opens_doubleCaret _)
    fun before isLabel _ => replaceFrom_signs (by decide) (by decide) before isLabel

/-- A text that is empty or opens with a space. -/
theorem space_of_stopsAt (stop : StopsAt (· != Byte.space) rest) :
    rest = [] ∨ ∃ more, rest = Byte.space :: more := by
  cases rest with
  | nil => exact .inl rfl
  | cons b more =>
      have same : b = Byte.space := by simpa using stop b rfl
      exact .inr ⟨more, by rw [same]⟩

/-- An angle bracket with a space behind it, or behind the sign it belongs to, opens no IRI. -/
theorem iriRest?_eq_none (stop : StopsAt (· != Byte.space) rest) : iriRest? rest = none := by
  rcases space_of_stopsAt stop with rfl | ⟨more, rfl⟩
  · rfl
  · rfl

theorem replaceFrom_operator (h : s ∈ binaryOperators) {label : Text} (before : Option Byte)
    (isLabel : IsPrefixLabel label) (stop : StopsAt (· != Byte.space) rest) :
    replaceFrom (label ++ [Byte.colon]) 0 before (s.text ++ rest) =
      s.text ++ replaceFrom (label ++ [Byte.colon]) 0 s.text.getLast? rest := by
  have noIri := iriRest?_eq_none stop
  have closed : opensLabel Byte.less = false ∧ opensLabel Byte.equals = false := by decide
  cases s with
  | less =>
      have unquoted : verbatim? Byte.less rest = none := by
        rw [verbatim?, if_neg (by decide), if_pos (by decide), noIri]
        rfl
      exact replaceFrom_cons unquoted (.inr (isPrefixOf_eq_false isLabel closed.1))
  | lessEqual =>
      have unquoted : verbatim? Byte.less (Byte.equals :: rest) = none := by
        rw [verbatim?, if_neg (by decide), if_pos (by decide), iriRest?, if_neg (by decide),
          if_neg (by decide), noIri]
        rfl
      have first := replaceFrom_cons unquoted
        (.inr (isPrefixOf_eq_false isLabel closed.1) : goesOn before = true ∨ _)
      rw [replaceFrom_cons (verbatim?_eq_none (by decide) rest)
        (.inr (isPrefixOf_eq_false isLabel closed.2))] at first
      exact first
  | _ => first
    | exact absurd h (by decide)
    | exact replaceFrom_signs (by decide) (by decide) before isLabel

theorem writtenAs_operator (h : s ∈ binaryOperators) :
    (Lexeme.symbol s).WrittenAs ns s.text (· != Byte.space) := by
  have named : ∀ b : Byte, b.continuesName = true → (b != Byte.space) = true :=
    fun b => Byte.forall_of_digits (P := fun b => b.continuesName = true → (b != Byte.space) = true)
      (by decide) b
  refine writtenAs_symbol ?_ (fun stop => ?_) fun before isLabel => replaceFrom_operator h before isLabel
  · exact {
      solid := by cases s <;> decide
      admitsSpace := by decide
      admitsBracket := fun _ => named
      bracket := fun _ => by decide
      joins := fun _ => .inr named
      minus := by
        rintro rfl
        decide }
  · rcases space_of_stopsAt stop with rfl | ⟨more, rfl⟩
    · cases s <;> exact ⟨rfl, rfl⟩
    · exact opens_symbol _ more

end Signs

end Lexeme

end SparqlMetrics
