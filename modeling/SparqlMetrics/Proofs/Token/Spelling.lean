import SparqlMetrics.Token.Stream

/-!
# How lexemes are spelled

What the scanner has found out about the text of a lexeme: which bytes a name, a label, a tag or a
number is made of. Main statements: every lexeme that is read is spelled by these rules
(`Lexeme.spelled_read`), so every token of a text is (`TokenStream.spelled_ofText`).
-/
namespace SparqlMetrics

def IsVariableName (name : Text) : Prop := name ≠ [] ∧ ∀ b ∈ name, b.isNameByte = true

def IsBlankLabel (label : Text) : Prop :=
  label ≠ [] ∧ (∀ b ∈ label, (b.isNameByte || b == Byte.hyphen || b == Byte.dot) = true) ∧
    label.getLast? ≠ some Byte.dot

def IsLanguageTag (tag : Text) : Prop :=
  (tag.head?.map Byte.isAlpha).getD false = true ∧ ∀ b ∈ tag, Lexeme.isTagByte b = true

/-- A keyword or an identifier. -/
def IsWord (word : Text) : Prop :=
  (word.head?.map Byte.isNameStart).getD false = true ∧ ∀ b ∈ word, b.isNameByte = true

instance (word : Text) : Decidable (IsWord word) := @instDecidableAnd _ _ _ (List.decidableBAll _ _)

/-- A label of a namespace that its colon ends. -/
def IsPrefixLabel (label : Text) : Prop :=
  label = [] ∨ (label.head?.map Byte.isNameStart).getD false = true ∧
    (∀ b ∈ label, Lexeme.isLabelByte b = true) ∧ label.getLast? ≠ some Byte.dot ∧
    label ≠ [Byte.underscore]

/-- A text that can stand between angle brackets. -/
def IsCleanIri (iri : Text) : Prop :=
  ∀ b ∈ iri, Lexeme.isIriForbidden b = false ∧ b ≠ Byte.greater

instance (iri : Text) : Decidable (IsCleanIri iri) := List.decidableBAll _ _

def IsDigits (digits : Text) : Prop := digits ≠ [] ∧ ∀ b ∈ digits, b.isDigit = true

/-- The sign of an exponent or of a number, or nothing. -/
def IsSign (sign : Text) : Prop := sign = [] ∨ sign = [Byte.plus] ∨ sign = [Byte.hyphen]

/-- An unsigned number without an exponent. -/
inductive IsMantissa : NumberKind → Text → Prop
  | integer {digits : Text} : IsDigits digits → IsMantissa .integer digits
  | decimal {digits fraction : Text} : IsDigits digits → IsDigits fraction →
      IsMantissa .decimal (digits ++ Byte.dot :: fraction)

/-- An unsigned number in one of the three notations. -/
inductive IsNumeral : NumberKind → Text → Prop
  | plain {kind : NumberKind} {mantissa : Text} : IsMantissa kind mantissa →
      IsNumeral kind mantissa
  | double {kind : NumberKind} {mantissa sign digits : Text} {e : Byte} :
      IsMantissa kind mantissa → e = 0x65 ∨ e = 0x45 → IsSign sign → IsDigits digits →
      IsNumeral .double (mantissa ++ e :: sign ++ digits)

/-- What is known about the text of a lexeme. -/
def Lexeme.Spelled : Lexeme → Prop
  | .iri reference => IsCleanIri reference
  | .prefixedName label _ => IsPrefixLabel label
  | .blankNodeLabel label => IsBlankLabel label
  | .variableName name => IsVariableName name
  | .number kind digits => IsNumeral kind digits
  | .languageTag tag => IsLanguageTag tag
  | .identifier name => IsWord name ∧ Keyword.ofCapitals? name.toUpper = none
  | _ => True

namespace Lexeme

theorem clean_of_iriReference? {s reference behind : Text}
    (h : iriReference? s = some (reference, behind)) : IsCleanIri reference := by
  induction s generalizing reference with
  | nil => simp [iriReference?] at h
  | cons b rest ih =>
      simp only [iriReference?] at h
      split at h
      · simp only [Option.some.injEq, Prod.mk.injEq] at h
        simp [← h.1, IsCleanIri]
      · next more =>
        split at h
        · simp at h
        · next allowed =>
          obtain ⟨⟨inner, after⟩, found, same⟩ := Option.map_eq_some_iff.mp h
          simp only [Prod.mk.injEq] at same
          rw [← same.1]
          intro c hc
          rcases List.mem_cons.mp hc with rfl | hc
          · exact ⟨by simpa using allowed, by simpa using more⟩
          · exact ih (same.2 ▸ found) c hc

theorem spelled_readVariable? {rest behind : Text} {lexeme : Lexeme}
    (h : readVariable? rest = some (lexeme, behind)) : lexeme.Spelled := by
  simp only [readVariable?] at h
  split at h
  · simp at h
  · next nonempty =>
    simp only [Option.some.injEq, Prod.mk.injEq] at h
    rw [← h.1]
    exact ⟨by simpa using nonempty, List.all_eq_true.mp List.all_takeWhile⟩

theorem spelled_readLanguageTag {rest behind : Text} {lexeme : Lexeme}
    (h : readLanguageTag rest = .ok (lexeme, behind)) : lexeme.Spelled := by
  simp only [readLanguageTag] at h
  split at h
  · next opens =>
    simp only [Except.ok.injEq, Prod.mk.injEq] at h
    rw [← h.1]
    exact ⟨opens, List.all_eq_true.mp List.all_takeWhile⟩
  · simp at h

/-- The bytes of a blank node label: dots at its end are given back. -/
theorem localName_blank (s : Text) :
    (∀ b ∈ (localName true s).1, (b.isNameByte || b == Byte.hyphen || b == Byte.dot) = true) ∧
      (localName true s).1.getLast? ≠ some Byte.dot := by
  induction s with
  | nil => simp [localName]
  | cons b rest ih =>
      rw [localName.eq_def]
      simp only [Bool.not_true, Bool.and_false, Bool.or_false, Bool.false_eq_true, if_false]
      split
      · next name =>
        refine ⟨?_, ?_⟩
        · intro c hc
          rcases List.mem_cons.mp hc with rfl | hc
          · rw [name]
            rfl
          · exact ih.1 c hc
        · cases tail : (localName true rest).1 with
          | nil =>
              have notDot : b ≠ Byte.dot := by
                rintro rfl
                exact absurd name (by decide)
              simpa using notDot
          | cons c more =>
              rw [List.getLast?_cons_cons, ← tail]
              exact ih.2
      · split
        · next dot =>
          split
          · simp
          · next name behind nonempty found =>
            rw [found] at ih
            refine ⟨?_, ?_⟩
            · intro c hc
              rcases List.mem_cons.mp hc with rfl | hc
              · rw [dot, Bool.or_true]
              · exact ih.1 c hc
            · cases tail : name with
              | nil => simp_all
              | cons c more =>
                  rw [List.getLast?_cons_cons, ← tail]
                  exact ih.2
        · simp

theorem spelled_readPrefixedName {label rest behind : Text} {lexeme : Lexeme}
    (legal : label ≠ [Byte.underscore] → IsPrefixLabel label)
    (h : readPrefixedName label rest = .ok (lexeme, behind)) : lexeme.Spelled := by
  simp only [readPrefixedName] at h
  split at h
  · split at h
    · simp at h
    · next nonempty found =>
      simp only [Except.ok.injEq, Prod.mk.injEq] at h
      have blank := localName_blank rest
      rw [found] at blank
      rw [← h.1]
      exact ⟨nonempty, blank⟩
  · next other =>
    simp only [Except.ok.injEq, Prod.mk.injEq] at h
    rw [← h.1]
    exact legal (by simpa using other)

theorem isNameByte_of_isNameStart {b : Byte} (h : b.isNameStart = true) : b.isNameByte = true := by
  simp only [Byte.isNameStart, Byte.isNameByte, Byte.isAlnum, Bool.or_eq_true] at *
  rcases h with (h | h) | h <;> simp [h]

theorem spelled_ofWord {word : Text} (h : IsWord word) : (ofWord word).Spelled := by
  unfold ofWord
  split
  · trivial
  · next other => exact ⟨h, other⟩

theorem spelled_readWord {b : Byte} {rest behind : Text} {lexeme : Lexeme}
    (start : b.isNameStart = true) (h : readWord (b :: rest) = .ok (lexeme, behind)) :
    lexeme.Spelled := by
  have name := isNameByte_of_isNameStart start
  have labelByte : isLabelByte b = true := by simp [isLabelByte, name]
  simp only [readWord] at h
  split at h
  · next colon =>
    simp only [Bool.and_eq_true, bne_iff_ne, ne_eq] at colon
    refine spelled_readPrefixedName
      (fun other => .inr ⟨?_, List.all_eq_true.mp List.all_takeWhile, colon.2, other⟩) h
    simp [labelByte, start]
  · simp only [Except.ok.injEq, Prod.mk.injEq] at h
    rw [← h.1]
    exact spelled_ofWord ⟨by simp [name, start], List.all_eq_true.mp List.all_takeWhile⟩

theorem digits_of_fraction? {s run behind : Text} (h : fraction? s = some (run, behind)) :
    ∃ digits, IsDigits digits ∧ run = Byte.dot :: digits := by
  cases s with
  | nil => simp [fraction?] at h
  | cons point digits =>
      simp only [fraction?] at h
      split at h
      · next both =>
        simp only [Bool.and_eq_true, beq_iff_eq, Bool.not_eq_true', List.isEmpty_eq_false_iff] at both
        simp only [Option.some.injEq, Prod.mk.injEq] at h
        exact ⟨_, ⟨both.2, List.all_eq_true.mp List.all_takeWhile⟩, by rw [← h.1, both.1]⟩
      · simp at h

theorem isSign_exponentSign (s : Text) : IsSign (exponentSign s).1 := by
  unfold exponentSign
  cases s with
  | nil => simp [IsSign]
  | cons b rest =>
      split
      · next sign => simpa [IsSign] using sign
      · exact .inl rfl

theorem digits_of_exponent? {s run behind : Text} (h : exponent? s = some (run, behind)) :
    ∃ e sign digits, (e = 0x65 ∨ e = 0x45) ∧ IsSign sign ∧ IsDigits digits ∧
      run = e :: sign ++ digits := by
  cases s with
  | nil => simp [exponent?] at h
  | cons e rest =>
      simp only [exponent?] at h
      split at h
      · next letter =>
        split at h
        · simp at h
        · next nonempty =>
          simp only [Option.some.injEq, Prod.mk.injEq] at h
          exact ⟨e, _, _, by simpa using letter, isSign_exponentSign rest,
            ⟨by simpa using nonempty, List.all_eq_true.mp List.all_takeWhile⟩, h.1.symm⟩
      · simp at h

/-- An exponent behind a mantissa makes it a double. -/
theorem spelled_mantissa {kind : NumberKind} {m behind : Text} (h : IsMantissa kind m) :
    (match exponent? behind with
      | some (exponent, rest) => ((Lexeme.number .double (m ++ exponent), rest) : Lexeme × Text)
      | none => (.number kind m, behind)).1.Spelled := by
  cases found : exponent? behind with
  | none => exact .plain h
  | some pair =>
      obtain ⟨e, sign, digits, letter, hsign, hdigits, same⟩ := digits_of_exponent? found
      show IsNumeral .double (m ++ pair.1)
      rw [same, ← List.append_assoc]
      exact .double h letter hsign hdigits

theorem spelled_readNumber {b : Byte} {rest : Text} (h : b.isDigit = true) :
    (readNumber (b :: rest)).1.Spelled := by
  have whole : IsDigits ((b :: rest).takeWhile Byte.isDigit) :=
    ⟨by simp [h], List.all_eq_true.mp List.all_takeWhile⟩
  simp only [readNumber]
  cases found : fraction? ((b :: rest).dropWhile Byte.isDigit) with
  | none => exact spelled_mantissa (.integer whole)
  | some pair =>
      obtain ⟨digits, hdigits, same⟩ := digits_of_fraction? found
      simp only [same]
      exact spelled_mantissa (.decimal whole hdigits)

theorem spelled_markOf (second : Byte) (both single : Symbol) (rest : Text) :
    (markOf second both single rest).1.Spelled := by
  unfold markOf
  split <;> trivial

theorem spelled_readMark? {b : Byte} {rest : Text} {found : Lexeme × Text}
    (h : readMark? b rest = some found) : found.1.Spelled := by
  unfold readMark? at h
  split at h
  · exact Option.some.inj h ▸ spelled_markOf _ _ _ _
  split at h
  · exact Option.some.inj h ▸ spelled_markOf _ _ _ _
  split at h
  · exact Option.some.inj h ▸ spelled_markOf _ _ _ _
  split at h
  · exact Option.some.inj h ▸ spelled_markOf _ _ _ _
  · obtain ⟨s, _, same⟩ := Option.map_eq_some_iff.mp h
    rw [← same]
    trivial

theorem spelled_readString {mark : Byte} {rest behind : Text} {lexeme : Lexeme}
    (h : readString mark rest = .ok (lexeme, behind)) : lexeme.Spelled := by
  simp only [readString] at h
  split at h
  · simp only [Except.ok.injEq, Prod.mk.injEq] at h
    rw [← h.1]
    trivial
  · simp at h

theorem spelled_readSigned? {b : Byte} {rest behind : Text} {lexeme : Lexeme}
    (h : readSigned? b rest = some (.ok (lexeme, behind))) : lexeme.Spelled := by
  unfold readSigned? at h
  split at h
  · have same := Except.ok.inj (Option.some.inj h)
    unfold readLess at same
    split at same
    · next found =>
      rw [← (Prod.mk.inj same).1]
      exact clean_of_iriReference? found
    · have mark := spelled_markOf Byte.equals .lessEqual .less rest
      rw [same] at mark
      exact mark
  split at h
  · cases found : readVariable? rest with
    | none =>
        rw [found] at h
        simp only [Option.getD_none, Option.some.injEq, Except.ok.injEq, Prod.mk.injEq] at h
        rw [← h.1]
        trivial
    | some pair =>
        rw [found] at h
        simp only [Option.getD_some, Option.some.injEq, Except.ok.injEq] at h
        exact spelled_readVariable? (h ▸ found)
  split at h
  · cases found : readVariable? rest with
    | none => simp [found, unexpected] at h
    | some pair =>
        rw [found] at h
        simp only [Option.map_some, Option.getD_some, Option.some.injEq, Except.ok.injEq] at h
        exact spelled_readVariable? (h ▸ found)
  split at h
  · split at h
    · simp only [Option.some.injEq, Except.ok.injEq, Prod.mk.injEq] at h
      rw [← h.1]
      trivial
    · simp [unexpected] at h
  split at h
  · exact spelled_readLanguageTag (Option.some.inj h)
  split at h
  · exact spelled_readString (Option.some.inj h)
  split at h
  · exact spelled_readPrefixedName (fun _ => .inl rfl) (Option.some.inj h)
  · simp at h

/-- A lexeme that is read is spelled by the rules. -/
theorem spelled_read {s behind : Text} {lexeme : Lexeme} (h : read s = .ok (lexeme, behind)) :
    lexeme.Spelled := by
  cases s with
  | nil =>
      rw [← (Prod.mk.inj (Except.ok.inj h)).1]
      trivial
  | cons b rest =>
      simp only [read, readFrom] at h
      split at h
      · next found =>
        have mark := spelled_readMark? found
        rw [Except.ok.inj h] at mark
        exact mark
      · cases found : readSigned? b rest with
        | some result =>
            rw [found, Option.getD_some] at h
            exact spelled_readSigned? (h ▸ found)
        | none =>
            rw [found, Option.getD_none] at h
            unfold readRun at h
            split at h
            · next digit =>
              have number : (readNumber (b :: rest)).1.Spelled := spelled_readNumber digit
              rw [Except.ok.inj h] at number
              exact number
            split at h
            · next start => exact spelled_readWord start h
            · simp [unexpected] at h

theorem spelled_of_isTerminal {lexeme : Lexeme} (h : lexeme.isTerminal = true) :
    lexeme.Spelled := by
  cases lexeme <;> trivial

end Lexeme

theorem Scanner.spelled_next {scanner : Scanner} (sound : scanner.Sound) :
    scanner.next.1.lexeme.Spelled := by
  cases fault : scanner.fault with
  | some token =>
      simpa [next, fault] using Lexeme.spelled_of_isTerminal (sound token fault)
  | none =>
      cases found : Lexeme.read (Lexeme.skipGap false scanner.ahead) with
      | ok pair => simpa [next, fault, found] using Lexeme.spelled_read found
      | error place => simp [next, fault, found, Lexeme.Spelled]

namespace TokenStream

theorem spelled_ofScanner (scanner : { s : Scanner // s.Sound }) :
    ∀ t ∈ (ofScanner scanner).toList, t.lexeme.Spelled := by
  fun_induction ofScanner scanner with
  | case1 scanner step _ =>
      intro t ht
      rw [List.mem_singleton.mp ht]
      exact Scanner.spelled_next scanner.property
  | case2 scanner step _ rest ih =>
      intro t ht
      rcases List.mem_cons.mp ht with rfl | ht
      · exact Scanner.spelled_next scanner.property
      · exact ih t ht

theorem full_ofScanner (scanner : { s : Scanner // s.Sound }) :
    ∀ t ∈ (ofScanner scanner).tokens, t.lexeme.isTerminal = false := by
  fun_induction ofScanner scanner with
  | case1 scanner step _ => exact nofun
  | case2 scanner step full rest ih =>
      intro t ht
      rcases List.mem_cons.mp ht with rfl | ht
      · simpa using full
      · exact ih t ht

/-- Every token of a text is spelled by the rules. -/
theorem spelled_ofText (s : Text) : ∀ t ∈ (ofText s).toList, t.lexeme.Spelled :=
  spelled_ofScanner _

end TokenStream

end SparqlMetrics
