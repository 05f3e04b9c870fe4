import SparqlMetrics.Proofs.Token.Opens
import SparqlMetrics.Proofs.Token.Strings

/-!
# Which reader a lexeme comes from

The byte that opens a lexeme decides which reader is asked for the text behind it: `Lexeme.Asks`
lists the readers. `Lexeme.ReadBy` lists those that return a lexeme, `Lexeme.FaultBy` those that stop
with a fault; a lexeme that is known tells its reader. Main statements: `Lexeme.asks_readFrom`,
`Lexeme.readBy_of_readFrom`, `Lexeme.faultBy_of_readFrom`, `Lexeme.angled_of_read`,
`Lexeme.FaultBy.ascii`.
-/
namespace SparqlMetrics.Lexeme

/-- The reader that a byte asks for the text behind it. -/
inductive Asks (b : Byte) : (Text → Except Fault (Lexeme × Text)) → Prop
  | pair {second : Byte} {both single : Symbol} : b.isHigh = false → second.isHigh = false →
      second.isSpace = false → both.text = [b, second] ∧ single.text = [b] →
      Asks b fun rest => .ok (markOf second both single rest)
  | mark {s : Symbol} : Symbol.ofByte? b = some s → Asks b fun rest => .ok (.symbol s, rest)
  | less : b = Byte.less → Asks b fun rest => .ok (readLess rest)
  | question : b = Byte.question →
      Asks b fun rest => .ok ((readVariable? rest).getD (.symbol .question, rest))
  | dollar : b = Byte.dollar →
      Asks b fun rest => ((readVariable? rest).map .ok).getD (unexpected b rest)
  | ampersand : b = Byte.ampersand → Asks b fun rest =>
      if rest.head? = some b then .ok (.symbol .andAnd, rest.tail) else unexpected b rest
  | languageTag : b = Byte.atSign → Asks b readLanguageTag
  | string : b = Byte.apostrophe ∨ b = Byte.quote → Asks b (readString b)
  | unlabelled : b = Byte.colon → Asks b (readPrefixedName [])
  | number : b.isDigit = true → Asks b fun rest => .ok (readNumber (b :: rest))
  | word : b.isNameStart = true → Asks b fun rest => readWord (b :: rest)
  | unexpected : b.isNameStart = false → Asks b (unexpected b)

/-- A byte that is no sign asks for a mark of its own, a number, a word or nothing. -/
theorem asks_readRun (b : Byte) : Asks b (readRun b) := by
  by_cases digit : b.isDigit = true
  · have reads : readRun b = fun rest => .ok (readNumber (b :: rest)) :=
      funext fun rest => if_pos digit
    exact reads ▸ .number digit
  cases start : b.isNameStart with
  | true =>
      have reads : readRun b = fun rest => readWord (b :: rest) := by
        funext rest
        rw [readRun, if_neg digit, if_pos start]
      exact reads ▸ .word start
  | false =>
      have reads : readRun b = Lexeme.unexpected b := by
        funext rest
        rw [readRun, if_neg digit, start, if_neg Bool.false_ne_true]
      exact reads ▸ .unexpected start

theorem asks_readFrom (b : Byte) : Asks b (readFrom b) := by
  by_cases caret : b = Byte.caret
  · exact caret ▸ .pair (by decide) (by decide) (by decide) (by decide)
  by_cases pipe : b = Byte.pipe
  · exact pipe ▸ .pair (by decide) (by decide) (by decide) (by decide)
  by_cases bang : b = Byte.bang
  · exact bang ▸ .pair (by decide) (by decide) (by decide) (by decide)
  by_cases greater : b = Byte.greater
  · exact greater ▸ .pair (by decide) (by decide) (by decide) (by decide)
  by_cases less : b = Byte.less
  · exact less ▸ .less rfl
  by_cases question : b = Byte.question
  · exact question ▸ .question rfl
  by_cases dollar : b = Byte.dollar
  · exact dollar ▸ .dollar rfl
  by_cases ampersand : b = Byte.ampersand
  · exact ampersand ▸ .ampersand rfl
  by_cases sign : b = Byte.atSign
  · exact sign ▸ .languageTag rfl
  by_cases apostrophe : b = Byte.apostrophe
  · exact apostrophe ▸ .string (.inl rfl)
  by_cases quote : b = Byte.quote
  · exact quote ▸ .string (.inr rfl)
  by_cases colon : b = Byte.colon
  · exact colon ▸ .unlabelled rfl
  cases known : Symbol.ofByte? b with
  | some s =>
      have reads : readFrom b = fun rest => .ok (.symbol s, rest) := by
        funext rest
        simp [readFrom, readMark?, caret, pipe, bang, greater, known]
      exact reads ▸ .mark known
  | none =>
      have reads : readFrom b = readRun b := by
        funext rest
        simp [readFrom, readMark?, readSigned?, caret, pipe, bang, greater, known, less, question,
          dollar, ampersand, sign, apostrophe, quote, colon]
      exact reads ▸ asks_readRun b

/-- The reader that returns a lexeme, and what it leaves. -/
inductive ReadBy (b : Byte) (rest : Text) : Lexeme → Text → Prop
  | pair {second : Byte} {both single : Symbol} : b.isHigh = false → second.isHigh = false →
      both.text = [b, second] ∧ single.text = [b] →
      ReadBy b rest (markOf second both single rest).1 (markOf second both single rest).2
  | mark {s : Symbol} : Symbol.ofByte? b = some s → ReadBy b rest (.symbol s) rest
  | less : b = Byte.less → ReadBy b rest (readLess rest).1 (readLess rest).2
  | variableName {found : Lexeme × Text} : b = Byte.question ∨ b = Byte.dollar →
      readVariable? rest = some found → ReadBy b rest found.1 found.2
  | question : b = Byte.question → ReadBy b rest (.symbol .question) rest
  | andAnd : b = Byte.ampersand → rest.head? = some Byte.ampersand →
      ReadBy b rest (.symbol .andAnd) rest.tail
  | languageTag {l : Lexeme} {behind : Text} : b = Byte.atSign →
      readLanguageTag rest = .ok (l, behind) → ReadBy b rest l behind
  | string {l : Lexeme} {behind : Text} : b = Byte.apostrophe ∨ b = Byte.quote →
      readString b rest = .ok (l, behind) → ReadBy b rest l behind
  | unlabelled {l : Lexeme} {behind : Text} : b = Byte.colon →
      readPrefixedName [] rest = .ok (l, behind) → ReadBy b rest l behind
  | number : b.isDigit = true →
      ReadBy b rest (readNumber (b :: rest)).1 (readNumber (b :: rest)).2
  | word {l : Lexeme} {behind : Text} : b.isNameStart = true →
      readWord (b :: rest) = .ok (l, behind) → ReadBy b rest l behind

/-- The reader that stops with a fault. -/
inductive FaultBy (b : Byte) (rest : Text) : Fault → Prop
  | unexpected : b.isNameStart = false → FaultBy b rest ⟨.unexpectedByte b, b :: rest⟩
  | languageTag {fault : Fault} : b = Byte.atSign → readLanguageTag rest = .error fault →
      FaultBy b rest fault
  | string {fault : Fault} : b = Byte.apostrophe ∨ b = Byte.quote →
      readString b rest = .error fault → FaultBy b rest fault
  | unlabelled {fault : Fault} : b = Byte.colon → readPrefixedName [] rest = .error fault →
      FaultBy b rest fault
  | word {fault : Fault} : b.isNameStart = true → readWord (b :: rest) = .error fault →
      FaultBy b rest fault

/-- What a reader answers: a lexeme of its own or a fault. -/
def Told (b : Byte) (rest : Text) : Except Fault (Lexeme × Text) → Prop
  | .ok (l, behind) => ReadBy b rest l behind
  | .error fault => FaultBy b rest fault

variable {b : Byte} {rest behind : Text} {l : Lexeme}

theorem Asks.told {read : Text → Except Fault (Lexeme × Text)} (h : Asks b read) (rest : Text) :
    Told b rest (read rest) := by
  cases h with
  | pair ascii ascii' _ spelled => exact .pair ascii ascii' spelled
  | mark known => exact .mark known
  | less same => exact .less same
  | question same =>
      show Told b rest (.ok _)
      cases found : readVariable? rest with
      | none => exact .question same
      | some pair => exact .variableName (.inl same) found
  | dollar same =>
      show Told b rest (Option.getD (Option.map _ _) _)
      cases found : readVariable? rest with
      | none => exact .unexpected (same ▸ by decide)
      | some pair => exact .variableName (.inr same) found
  | ampersand same =>
      show Told b rest (if _ then _ else _)
      split
      · next second => exact .andAnd same (same ▸ second)
      · exact .unexpected (same ▸ by decide)
  | languageTag same =>
      cases found : readLanguageTag rest with
      | ok pair => exact .languageTag same found
      | error fault => exact .languageTag same found
  | string quoted =>
      cases found : readString b rest with
      | ok pair => exact .string quoted found
      | error fault => exact .string quoted found
  | unlabelled same =>
      cases found : readPrefixedName [] rest with
      | ok pair => exact .unlabelled same found
      | error fault => exact .unlabelled same found
  | number digit => exact .number digit
  | word start =>
      show Told b rest (readWord (b :: rest))
      cases found : readWord (b :: rest) with
      | ok pair => exact .word start found
      | error fault => exact .word start found
  | unexpected other => exact .unexpected other

theorem readBy_of_readFrom (h : readFrom b rest = .ok (l, behind)) : ReadBy b rest l behind := by
  have told := (asks_readFrom b).told rest
  rwa [h] at told

theorem faultBy_of_readFrom {fault : Fault} (h : readFrom b rest = .error fault) :
    FaultBy b rest fault := by
  have told := (asks_readFrom b).told rest
  rwa [h] at told

/-! ## Ordinary lexemes

Every reader but the one of an angle bracket returns a lexeme that is neither a reference nor
terminal. -/

def isOrdinary : Lexeme → Bool
  | .iri _ => false
  | .endOfInput => false
  | .invalid _ => false
  | _ => true

theorem full_of_isOrdinary (h : l.isOrdinary = true) : l.isTerminal = false := by
  cases l with
  | endOfInput => cases h
  | invalid => cases h
  | _ => rfl

theorem isOrdinary_markOf (second : Byte) (both single : Symbol) (rest : Text) :
    (markOf second both single rest).1.isOrdinary = true := by
  unfold markOf
  split <;> rfl

theorem isOrdinary_readPrefixedName {label : Text}
    (h : readPrefixedName label rest = .ok (l, behind)) : l.isOrdinary = true := by
  unfold readPrefixedName at h
  split at h
  · split at h
    · cases h
    · exact (Prod.mk.inj (Except.ok.inj h)).1 ▸ rfl
  · exact (Prod.mk.inj (Except.ok.inj h)).1 ▸ rfl

theorem ReadBy.less_or_isOrdinary (h : ReadBy b rest l behind) :
    (b = Byte.less ∧ readLess rest = (l, behind)) ∨ l.isOrdinary = true := by
  cases h with
  | less opens => exact .inl ⟨opens, rfl⟩
  | pair => exact .inr (isOrdinary_markOf _ _ _ rest)
  | mark => exact .inr rfl
  | variableName _ read =>
      simp only [readVariable?] at read
      split at read
      · cases read
      · exact .inr (Option.some.inj read ▸ rfl)
  | question => exact .inr rfl
  | andAnd => exact .inr rfl
  | languageTag _ read =>
      simp only [readLanguageTag] at read
      split at read
      · exact .inr ((Prod.mk.inj (Except.ok.inj read)).1 ▸ rfl)
      · cases read
  | string _ read =>
      simp only [readString] at read
      split at read
      · exact .inr ((Prod.mk.inj (Except.ok.inj read)).1 ▸ rfl)
      · cases read
  | unlabelled _ read => exact .inr (isOrdinary_readPrefixedName read)
  | number =>
      unfold readNumber
      simp only
      split <;> exact .inr rfl
  | word _ read =>
      unfold readWord at read
      simp only at read
      split at read
      · exact .inr (isOrdinary_readPrefixedName read)
      · rw [← (Prod.mk.inj (Except.ok.inj read)).1, ofWord]
        split <;> exact .inr rfl

/-- What a reader returns is no terminal lexeme. -/
theorem ReadBy.full (h : ReadBy b rest l behind) : l.isTerminal = false := by
  obtain ⟨_, read⟩ | ordinary := h.less_or_isOrdinary
  · unfold readLess at read
    split at read
    · exact (Prod.mk.inj read).1 ▸ rfl
    · have ordinary := isOrdinary_markOf Byte.equals .lessEqual .less rest
      rw [read] at ordinary
      exact full_of_isOrdinary ordinary
  · exact full_of_isOrdinary ordinary

/-! ## Faults -/

theorem cause_of_readPrefixedName {label : Text} {fault : Fault}
    (h : readPrefixedName label rest = .error fault) (found : Byte) :
    fault.cause ≠ .unexpectedByte found := by
  unfold readPrefixedName at h
  split at h
  · split at h
    · exact Except.error.inj h ▸ nofun
    · cases h
  · cases h

/-- A byte that is reported to open no lexeme is in ASCII. -/
theorem FaultBy.ascii {fault : Fault} (h : FaultBy b rest fault) {found : Byte}
    (same : fault.cause = .unexpectedByte found) : found.isHigh = false := by
  cases h with
  | unexpected other =>
      obtain rfl := LexicalFault.unexpectedByte.inj same
      rw [Byte.isNameStart, Bool.or_eq_false_iff] at other
      exact other.2
  | languageTag _ read =>
      simp only [readLanguageTag] at read
      split at read
      · cases read
      · rw [← Except.error.inj read] at same
        cases same
  | string _ read =>
      simp only [readString] at read
      split at read
      · cases read
      · next body => exact absurd same (Except.error.inj read ▸ cause_of_stringBody body found)
  | unlabelled _ read => exact absurd same (cause_of_readPrefixedName read found)
  | word _ read =>
      unfold readWord at read
      simp only at read
      split at read
      · exact absurd same (cause_of_readPrefixedName read found)
      · cases read

/-! ## References -/

theorem eq_of_iriReference? {s reference behind : Text}
    (h : iriReference? s = some (reference, behind)) :
    s = reference ++ Byte.greater :: behind := by
  induction s generalizing reference with
  | nil => cases h
  | cons b rest ih =>
      simp only [iriReference?] at h
      split at h
      · next closes =>
        obtain ⟨rfl, rfl⟩ := Prod.mk.inj (Option.some.inj h)
        rw [beq_iff_eq.mp closes, List.nil_append]
      split at h
      · cases h
      · obtain ⟨⟨inner, after⟩, found, same⟩ := Option.map_eq_some_iff.mp h
        obtain ⟨rfl, rfl⟩ := Prod.mk.inj same
        rw [ih found, List.cons_append]

/-- A reference stands between its brackets. -/
theorem ReadBy.angled {reference : Text} (h : ReadBy b rest (.iri reference) behind) :
    b :: rest = Text.angled reference ++ behind := by
  obtain ⟨rfl, read⟩ | ordinary := h.less_or_isOrdinary
  · unfold readLess at read
    split at read
    · next found =>
      obtain ⟨same, rfl⟩ := Prod.mk.inj read
      obtain rfl := Lexeme.iri.inj same
      rw [eq_of_iriReference? found]
      simp [Text.angled]
    · have ordinary := isOrdinary_markOf Byte.equals .lessEqual .less rest
      rw [read] at ordinary
      cases ordinary
  · cases ordinary

/-- A text that is read as a reference opens with it between its brackets. -/
theorem angled_of_read {s reference : Text} (h : read s = .ok (.iri reference, behind)) :
    s = Text.angled reference ++ behind := by
  cases s with
  | nil => cases h
  | cons b rest => exact (readBy_of_readFrom h).angled

/-! ## Marks -/

variable {s : Symbol}

theorem text_of_markOf {second : Byte} {both single : Symbol}
    (spelled : both.text = [b, second] ∧ single.text = [b])
    (h : (markOf second both single rest).1 = .symbol s) :
    b :: rest = s.text ++ (markOf second both single rest).2 := by
  unfold markOf at h ⊢
  split at h
  · next ahead =>
    obtain rfl := Lexeme.symbol.inj h
    obtain ⟨behind, rfl⟩ := List.head?_eq_some_iff.mp ahead
    rw [if_pos ahead, spelled.1]
    rfl
  · next other =>
    obtain rfl := Lexeme.symbol.inj h
    rw [if_neg other, spelled.2, List.singleton_append]

theorem ne_symbol_of_readPrefixedName {label : Text}
    (h : readPrefixedName label rest = .ok (l, behind)) (s : Symbol) : l ≠ .symbol s := by
  unfold readPrefixedName at h
  split at h
  · split at h
    · cases h
    · exact (Prod.mk.inj (Except.ok.inj h)).1 ▸ nofun
  · exact (Prod.mk.inj (Except.ok.inj h)).1 ▸ nofun

/-- A mark stands as it is spelled. -/
theorem ReadBy.text (h : ReadBy b rest l behind) (same : l = .symbol s) :
    b :: rest = s.text ++ behind := by
  cases h with
  | pair _ _ spelled => exact text_of_markOf spelled same
  | @mark found known =>
      obtain rfl := Lexeme.symbol.inj same
      have plain : Symbol.plain.find? (fun m => m.text == [b]) = some found := known
      have spelled := List.find?_some plain
      rw [beq_iff_eq.mp spelled, List.singleton_append]
  | less opens =>
      subst opens
      unfold readLess at same ⊢
      split at same
      · cases same
      · exact text_of_markOf (by decide) same
  | variableName _ read =>
      simp only [readVariable?] at read
      split at read
      · cases read
      · rw [← Option.some.inj read] at same
        cases same
  | question opens =>
      obtain rfl := Lexeme.symbol.inj same
      subst opens
      rfl
  | andAnd opens second =>
      obtain rfl := Lexeme.symbol.inj same
      obtain ⟨rest, rfl⟩ := List.head?_eq_some_iff.mp second
      subst opens
      rfl
  | languageTag _ read =>
      simp only [readLanguageTag] at read
      split at read
      · rw [← (Prod.mk.inj (Except.ok.inj read)).1] at same
        cases same
      · cases read
  | string _ read =>
      simp only [readString] at read
      split at read
      · rw [← (Prod.mk.inj (Except.ok.inj read)).1] at same
        cases same
      · cases read
  | unlabelled _ read => exact absurd same (ne_symbol_of_readPrefixedName read s)
  | number =>
      unfold readNumber at same
      simp only at same
      split at same <;> cases same
  | word _ read =>
      unfold readWord at read
      simp only at read
      split at read
      · exact absurd same (ne_symbol_of_readPrefixedName read s)
      · rw [← (Prod.mk.inj (Except.ok.inj read)).1, ofWord] at same
        split at same <;> cases same

/-- A text that is read as a mark opens with it. -/
theorem text_of_read {t : Text} (h : read t = .ok (.symbol s, behind)) : t = s.text ++ behind := by
  cases t with
  | nil => cases h
  | cons b rest => exact (readBy_of_readFrom h).text rfl

end SparqlMetrics.Lexeme
