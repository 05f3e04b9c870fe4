import SparqlMetrics.Token.Scan

/-!
# Token streams

Scanning a whole text. Every lexeme other than the end of the input takes at least one byte, so a
scanner reaches a terminal token; the stream of a text is the tokens before it and that token.
-/
namespace SparqlMetrics

namespace Lexeme

theorem length_dropWhile_le (p : Byte → Bool) (s : Text) :
    (s.dropWhile p).length ≤ s.length :=
  (List.dropWhile_sublist p).length_le

theorem length_skipGap_le (inComment : Bool) (s : Text) :
    (skipGap inComment s).length ≤ s.length := by
  induction s generalizing inComment with
  | nil => simp [skipGap]
  | cons b rest ih =>
    simp only [skipGap]
    split
    · exact Nat.le_succ_of_le (ih _)
    · split
      · exact Nat.le_succ_of_le (ih _)
      · split
        · exact Nat.le_succ_of_le (ih _)
        · exact Nat.le_refl _

theorem length_of_iriReference? {s reference behind : Text}
    (h : iriReference? s = some (reference, behind)) : behind.length < s.length := by
  induction s generalizing reference with
  | nil => simp [iriReference?] at h
  | cons b rest ih =>
    simp only [iriReference?] at h
    split at h
    · simp only [Option.some.injEq, Prod.mk.injEq] at h
      simp [← h.2]
    · split at h
      · simp at h
      · obtain ⟨⟨inner, after⟩, found, same⟩ := Option.map_eq_some_iff.mp h
        simp only [Prod.mk.injEq] at same
        have := ih (same.2 ▸ found)
        exact Nat.lt_succ_of_lt this

theorem addBytes_eq_ok {bytes value behind : Text} {result : Except Fault (Text × Text)}
    (h : addBytes bytes result = .ok (value, behind)) :
    ∃ inner, result = .ok (inner, behind) ∧ value = bytes ++ inner := by
  cases result with
  | error fault => simp [addBytes] at h
  | ok pair =>
    obtain ⟨inner, after⟩ := pair
    simp only [addBytes, Except.ok.injEq, Prod.mk.injEq] at h
    exact ⟨inner, by rw [h.2], h.1.symm⟩

theorem length_of_stringBody {opening : Text} {mark : Byte} {long : Bool} {state : StringState}
    {s value behind : Text} (h : stringBody opening mark long state s = .ok (value, behind)) :
    behind.length < s.length := by
  induction s generalizing state value with
  | nil => cases state <;> simp [stringBody] at h
  | cons b rest ih =>
    have step : ∀ {bytes : Text} {state : StringState} {value : Text},
        addBytes bytes (stringBody opening mark long state rest) = .ok (value, behind) →
        behind.length < (b :: rest).length := by
      intro bytes state value h
      obtain ⟨inner, found, _⟩ := addBytes_eq_ok h
      exact Nat.lt_succ_of_lt (ih found)
    cases state with
    | plain =>
      simp only [stringBody] at h
      split at h
      · split at h
        · split at h
          · simp only [Except.ok.injEq, Prod.mk.injEq] at h
            rw [← h.2, List.length_drop, List.length_cons]
            omega
          · exact step h
        · simp only [Except.ok.injEq, Prod.mk.injEq] at h
          simp [← h.2]
      · split at h
        · simp at h
        · split at h
          · exact Nat.lt_succ_of_lt (ih h)
          · exact step h
    | escaped =>
      simp only [stringBody] at h
      split at h
      · exact step h
      · split at h
        · exact Nat.lt_succ_of_lt (ih h)
        · split at h
          · exact Nat.lt_succ_of_lt (ih h)
          · simp at h
    | codePoint owed code =>
      simp only [stringBody] at h
      split at h
      · split at h
        · exact step h
        · exact Nat.lt_succ_of_lt (ih h)
      · simp at h

theorem length_localName_le (blank : Bool) (s : Text) :
    (localName blank s).2.length ≤ s.length := by
  fun_induction localName blank s <;> simp_all <;> omega

theorem length_of_readVariable? {rest behind : Text} {lexeme : Lexeme}
    (h : readVariable? rest = some (lexeme, behind)) : behind.length ≤ rest.length := by
  simp only [readVariable?] at h
  split at h
  · simp at h
  · simp only [Option.some.injEq, Prod.mk.injEq] at h
    rw [← h.2]
    exact length_dropWhile_le _ _

theorem length_of_readString {mark : Byte} {rest behind : Text} {lexeme : Lexeme}
    (h : readString mark rest = .ok (lexeme, behind)) : behind.length ≤ rest.length := by
  simp only [readString] at h
  split at h
  · next found =>
    simp only [Except.ok.injEq, Prod.mk.injEq] at h
    have shorter := length_of_stringBody found
    rw [← h.2]
    split at shorter
    · rw [List.length_drop] at shorter
      omega
    · omega
  · simp at h

theorem length_of_readLanguageTag {rest behind : Text} {lexeme : Lexeme}
    (h : readLanguageTag rest = .ok (lexeme, behind)) : behind.length ≤ rest.length := by
  simp only [readLanguageTag] at h
  split at h
  · simp only [Except.ok.injEq, Prod.mk.injEq] at h
    rw [← h.2]
    exact length_dropWhile_le _ _
  · simp at h

theorem length_of_readPrefixedName {label rest behind : Text} {lexeme : Lexeme}
    (h : readPrefixedName label rest = .ok (lexeme, behind)) : behind.length ≤ rest.length := by
  have bound := fun blank => length_localName_le blank rest
  simp only [readPrefixedName] at h
  split at h
  · split at h
    · simp at h
    · next found =>
      simp only [Except.ok.injEq, Prod.mk.injEq] at h
      have := bound true
      rw [found] at this
      rw [← h.2]
      exact this
  · simp only [Except.ok.injEq, Prod.mk.injEq] at h
    rw [← h.2]
    exact bound false

theorem length_of_readNumber {b : Byte} {rest : Text} (h : b.isDigit = true) :
    (readNumber (b :: rest)).2.length ≤ rest.length := by
  have digits : ((b :: rest).dropWhile Byte.isDigit).length ≤ rest.length := by
    simpa [h] using length_dropWhile_le Byte.isDigit rest
  have fraction : ∀ {s run behind : Text}, fraction? s = some (run, behind) →
      behind.length ≤ s.length := by
    intro s run behind h
    cases s with
    | nil => simp [fraction?] at h
    | cons point rest =>
      simp only [fraction?] at h
      split at h
      · simp only [Option.some.injEq, Prod.mk.injEq] at h
        rw [← h.2]
        exact Nat.le_succ_of_le (length_dropWhile_le _ _)
      · simp at h
  have sign : ∀ s : Text, (exponentSign s).2.length ≤ s.length := by
    intro s
    simp only [exponentSign]
    split <;> simp
  have exponent : ∀ {s run behind : Text}, exponent? s = some (run, behind) →
      behind.length ≤ s.length := by
    intro s run behind h
    cases s with
    | nil => simp [exponent?] at h
    | cons e rest =>
      simp only [exponent?] at h
      split at h
      · split at h
        · simp at h
        · simp only [Option.some.injEq, Prod.mk.injEq] at h
          rw [← h.2]
          have := length_dropWhile_le Byte.isDigit (exponentSign rest).2
          exact Nat.le_succ_of_le (Nat.le_trans this (sign rest))
      · simp at h
  simp only [readNumber]
  cases hf : fraction? ((b :: rest).dropWhile Byte.isDigit) with
  | none =>
    simp only
    cases he : exponent? ((b :: rest).dropWhile Byte.isDigit) with
    | none => exact digits
    | some found => exact Nat.le_trans (exponent he) digits
  | some part =>
    simp only
    have first := Nat.le_trans (fraction hf) digits
    cases he : exponent? part.2 with
    | none => exact first
    | some found => exact Nat.le_trans (exponent he) first

theorem length_of_readWord {b : Byte} {rest behind : Text} {lexeme : Lexeme}
    (start : b.isNameStart = true) (h : readWord (b :: rest) = .ok (lexeme, behind)) :
    behind.length ≤ rest.length := by
  have name : b.isNameByte = true := by
    simp only [Byte.isNameStart, Byte.isNameByte, Byte.isAlnum, Bool.or_eq_true] at *
    rcases start with (h | h) | h <;> simp [h]
  have label : isLabelByte b = true := by simp [isLabelByte, name]
  simp only [readWord] at h
  split at h
  · have tail := length_of_readPrefixedName h
    have shorter : ((b :: rest).dropWhile isLabelByte).length ≤ rest.length := by
      simpa [label] using length_dropWhile_le isLabelByte rest
    rw [List.length_tail] at tail
    omega
  · simp only [Except.ok.injEq, Prod.mk.injEq] at h
    rw [← h.2]
    simpa [name] using length_dropWhile_le Byte.isNameByte rest

theorem length_markOf_le (second : Byte) (both single : Symbol) (rest : Text) :
    (markOf second both single rest).2.length ≤ rest.length := by
  simp only [markOf]
  split <;> simp

theorem length_of_readMark? {b : Byte} {rest : Text} {found : Lexeme × Text}
    (h : readMark? b rest = some found) : found.2.length ≤ rest.length := by
  have mark : ∀ {second : Byte} {both single : Symbol},
      some (markOf second both single rest) = some found → found.2.length ≤ rest.length := by
    intro second both single h
    rw [← Option.some.inj h]
    exact length_markOf_le _ _ _ _
  unfold readMark? at h
  split at h
  · exact mark h
  split at h
  · exact mark h
  split at h
  · exact mark h
  split at h
  · exact mark h
  · obtain ⟨s, _, same⟩ := Option.map_eq_some_iff.mp h
    simp [← same]

theorem length_readLess_le (rest : Text) : (readLess rest).2.length ≤ rest.length := by
  unfold readLess
  split
  · next found => exact Nat.le_of_lt (length_of_iriReference? found)
  · exact length_markOf_le _ _ _ _

theorem length_of_readRun {b : Byte} {rest behind : Text} {lexeme : Lexeme}
    (h : readRun b rest = .ok (lexeme, behind)) : behind.length ≤ rest.length := by
  unfold readRun at h
  split at h
  · next digit =>
    have bound : (readNumber (b :: rest)).2.length ≤ rest.length := length_of_readNumber digit
    rw [Except.ok.inj h] at bound
    exact bound
  split at h
  · next start => exact length_of_readWord start h
  · simp [unexpected] at h

theorem length_of_readSigned? {b : Byte} {rest behind : Text} {lexeme : Lexeme}
    (h : readSigned? b rest = some (.ok (lexeme, behind))) : behind.length ≤ rest.length := by
  unfold readSigned? at h
  split at h
  · have bound := length_readLess_le rest
    rw [Except.ok.inj (Option.some.inj h)] at bound
    exact bound
  split at h
  · cases found : readVariable? rest with
    | none =>
      rw [found] at h
      simp only [Option.getD_none, Option.some.injEq, Except.ok.injEq, Prod.mk.injEq] at h
      simp [← h.2]
    | some pair =>
      rw [found] at h
      simp only [Option.getD_some, Option.some.injEq, Except.ok.injEq] at h
      exact length_of_readVariable? (h ▸ found)
  split at h
  · cases found : readVariable? rest with
    | none => simp [found, unexpected] at h
    | some pair =>
      rw [found] at h
      simp only [Option.map_some, Option.getD_some, Option.some.injEq, Except.ok.injEq] at h
      exact length_of_readVariable? (h ▸ found)
  split at h
  · split at h
    · simp only [Option.some.injEq, Except.ok.injEq, Prod.mk.injEq] at h
      simp [← h.2]
    · simp [unexpected] at h
  split at h
  · exact length_of_readLanguageTag (Option.some.inj h)
  split at h
  · exact length_of_readString (Option.some.inj h)
  split at h
  · exact length_of_readPrefixedName (Option.some.inj h)
  · simp at h

theorem length_of_readFrom {b : Byte} {rest behind : Text} {lexeme : Lexeme}
    (h : readFrom b rest = .ok (lexeme, behind)) : behind.length ≤ rest.length := by
  unfold readFrom at h
  split at h
  · next found =>
    have bound := length_of_readMark? found
    rw [Except.ok.inj h] at bound
    exact bound
  · cases found : readSigned? b rest with
    | none =>
      rw [found, Option.getD_none] at h
      exact length_of_readRun h
    | some result =>
      rw [found, Option.getD_some] at h
      exact length_of_readSigned? (h ▸ found)

end Lexeme

namespace Scanner

/-- A scanner keeps no fault but one whose token is terminal. -/
def Sound (scanner : Scanner) : Prop :=
  ∀ token, scanner.fault = some token → token.lexeme.isTerminal = true

theorem sound_ofText (s : Text) : (ofText s).Sound := by
  simp [Sound, ofText]

theorem sound_next {scanner : Scanner} (sound : scanner.Sound) : scanner.next.2.Sound := by
  cases fault : scanner.fault with
  | some token => simpa [next, fault] using sound
  | none =>
    cases found : Lexeme.read (Lexeme.skipGap false scanner.ahead) with
    | ok pair => simp [next, fault, found, Sound]
    | error place => simp [next, fault, found, Sound, Lexeme.isTerminal]

/-- A token that is not terminal takes at least one byte. -/
theorem length_next_lt {scanner : Scanner} (sound : scanner.Sound)
    (h : scanner.next.1.lexeme.isTerminal = false) :
    scanner.next.2.ahead.length < scanner.ahead.length := by
  cases fault : scanner.fault with
  | some token =>
    have terminal := sound token fault
    simp [next, fault, terminal] at h
  | none =>
    have gap := Lexeme.length_skipGap_le false scanner.ahead
    cases ahead : Lexeme.skipGap false scanner.ahead with
    | nil => simp [next, fault, ahead, Lexeme.read, Lexeme.isTerminal] at h
    | cons b rest =>
      rw [ahead] at gap
      cases found : Lexeme.readFrom b rest with
      | error place => simp [next, fault, ahead, Lexeme.read, found, Lexeme.isTerminal] at h
      | ok pair =>
        have shorter := Lexeme.length_of_readFrom found
        simp only [next, fault, ahead, Lexeme.read, found]
        exact Nat.lt_of_lt_of_le (Nat.lt_succ_of_le shorter) gap

end Scanner

/-- The tokens of a text: those before the terminal one, and the terminal one. -/
structure TokenStream where
  tokens : List Token
  last : Token
  deriving DecidableEq, Repr

namespace TokenStream

/-- The tokens from a scanner on. -/
def ofScanner (scanner : { s : Scanner // s.Sound }) : TokenStream :=
  let step := scanner.val.next
  if _h : step.1.lexeme.isTerminal then ⟨[], step.1⟩
  else
    let rest := ofScanner ⟨step.2, Scanner.sound_next scanner.property⟩
    ⟨step.1 :: rest.tokens, rest.last⟩
termination_by scanner.val.ahead.length
decreasing_by exact Scanner.length_next_lt scanner.property (by simpa using _h)

def ofText (s : Text) : TokenStream := ofScanner ⟨Scanner.ofText s, Scanner.sound_ofText s⟩

/-- Every token of a stream, the terminal one included. -/
def toList (stream : TokenStream) : List Token := stream.tokens ++ [stream.last]

end TokenStream

end SparqlMetrics
