import SparqlMetrics.Token.Stream

/-!
# How a string is scanned

A string scanner takes one byte after the other: each byte adds decoded bytes and leaves a state,
the last one closes the string. Only a quote mark in a long string looks at the text behind it, so a
step is otherwise the same in front of every text. `Lexeme.Moves` is a step and `Lexeme.Scans` a
whole run. Main statements: `Lexeme.stringBody_cons`, `Lexeme.scans_of_stringBody`,
`Lexeme.Scans.stringBody`.
-/
namespace SparqlMetrics.Lexeme

/-- A step of a string scanner in front of a text: the bytes that a byte adds in a state, and the
state that it leaves. -/
inductive Moves (mark : Byte) (long : Bool) (rest : Text) :
    StringState → Byte → Text → StringState → Prop
  | mark : long = true → closesLong mark rest = false →
      Moves mark long rest .plain mark [mark] .plain
  | kept {b : Byte} : (b == mark) = false →
      (!long && (b == Byte.newline || b == Byte.carriageReturn)) = false →
      (b == Byte.backslash) = false → Moves mark long rest .plain b [b] .plain
  | backslash : (Byte.backslash == mark) = false →
      Moves mark long rest .plain Byte.backslash [] .escaped
  | simple {b byte : Byte} : simpleEscape? b = some byte →
      Moves mark long rest .escaped b [byte] .plain
  | short : Moves mark long rest .escaped 0x75 [] (.codePoint 4 0)
  | wide : Moves mark long rest .escaped 0x55 [] (.codePoint 8 0)
  | digit {b : Byte} {owed code : Nat} : b.isHexDigit = true → 1 < owed →
      Moves mark long rest (.codePoint owed code) b []
        (.codePoint (owed - 1) (code * 16 + b.hexValue))
  | lastDigit {b : Byte} {owed code : Nat} : b.isHexDigit = true → owed ≤ 1 →
      Moves mark long rest (.codePoint owed code) b
        (Text.ofCodePoint (code * 16 + b.hexValue)) .plain

/-- A run of a string scanner: the decoded string and the text behind its closing quotes. -/
inductive Scans (mark : Byte) (long : Bool) : StringState → Text → Text → Text → Prop
  | close {rest : Text} : long = false → Scans mark long .plain (mark :: rest) [] rest
  | closeLong {rest : Text} : long = true → closesLong mark rest = true →
      Scans mark long .plain (mark :: rest) [] (rest.drop 2)
  | step {state state' : StringState} {b : Byte} {bytes rest value behind : Text} :
      Moves mark long rest state b bytes state' → Scans mark long state' rest value behind →
      Scans mark long state (b :: rest) (bytes ++ value) behind

variable {opening : Text} {mark : Byte} {long : Bool} {state state' : StringState} {b : Byte}
  {s bytes rest value behind : Text}

theorem addBytes_nil (result : Except Fault (Text × Text)) : addBytes [] result = result := by
  cases result <;> rfl

theorem Moves.congr (h : Moves mark long rest state b bytes state') {more : Text}
    (same : long = true → closesLong mark more = closesLong mark rest) :
    Moves mark long more state b bytes state' := by
  cases h with
  | mark isLong goesOn => exact .mark isLong ((same isLong).trans goesOn)
  | kept other inside plain => exact .kept other inside plain
  | backslash other => exact .backslash other
  | simple found => exact .simple found
  | short => exact .short
  | wide => exact .wide
  | digit isDigit more => exact .digit isDigit more
  | lastDigit isDigit last => exact .lastDigit isDigit last

theorem Moves.stringBody (h : Moves mark long rest state b bytes state') (opening : Text) :
    stringBody opening mark long state (b :: rest) =
      addBytes bytes (stringBody opening mark long state' rest) := by
  cases h with
  | mark isLong goesOn => simp [Lexeme.stringBody, isLong, goesOn]
  | kept other inside plain =>
      simp only [Lexeme.stringBody, other, inside, plain, Bool.false_eq_true, if_false]
  | backslash other =>
      have inside : (!long && (Byte.backslash == Byte.newline ||
          Byte.backslash == Byte.carriageReturn)) = false := by cases long <;> rfl
      rw [Lexeme.stringBody, addBytes_nil]
      simp [other, inside]
  | simple found => rw [Lexeme.stringBody, found]
  | short => rw [addBytes_nil]; rfl
  | wide => rw [addBytes_nil]; rfl
  | digit isDigit more =>
      rw [Lexeme.stringBody, addBytes_nil]
      simp [isDigit, Nat.not_le.mpr more]
  | lastDigit isDigit last => simp [Lexeme.stringBody, isDigit, last]

theorem Scans.stringBody (h : Scans mark long state s value behind) (opening : Text) :
    stringBody opening mark long state s = .ok (value, behind) := by
  induction h with
  | close short => simp [Lexeme.stringBody, short]
  | closeLong isLong closes => simp [Lexeme.stringBody, isLong, closes]
  | step moves _ ih => rw [moves.stringBody, ih, addBytes]

/-- A string scanner goes on, closes the string, or stops with a fault of the string. -/
theorem stringBody_cons (opening : Text) (mark : Byte) (long : Bool) (state : StringState)
    (b : Byte) (rest : Text) :
    (∃ bytes state', Moves mark long rest state b bytes state') ∨
      (∃ behind, Scans mark long state (b :: rest) [] behind) ∨
      ∃ fault, stringBody opening mark long state (b :: rest) = .error fault ∧
        ∀ found, fault.cause ≠ .unexpectedByte found := by
  cases state with
  | plain =>
      by_cases isMark : b = mark
      · subst isMark
        cases isLong : long with
        | false => exact .inr (.inl ⟨_, .close rfl⟩)
        | true =>
            cases closes : closesLong b rest with
            | false => exact .inl ⟨_, _, .mark rfl closes⟩
            | true => exact .inr (.inl ⟨_, .closeLong rfl closes⟩)
      have other : (b == mark) = false := beq_eq_false_iff_ne.mpr isMark
      cases broken : !long && (b == Byte.newline || b == Byte.carriageReturn) with
      | true =>
          exact .inr (.inr ⟨⟨.unterminatedString, opening⟩,
            by simp [Lexeme.stringBody, other, broken], by rintro _ ⟨⟩⟩)
      | false =>
          cases escape : b == Byte.backslash with
          | true =>
              obtain rfl := beq_iff_eq.mp escape
              exact .inl ⟨_, _, .backslash other⟩
          | false => exact .inl ⟨_, _, .kept other broken escape⟩
  | escaped =>
      cases simple : simpleEscape? b with
      | some byte => exact .inl ⟨_, _, .simple simple⟩
      | none =>
          by_cases short : b = 0x75
          · subst short
            exact .inl ⟨_, _, .short⟩
          by_cases wide : b = 0x55
          · subst wide
            exact .inl ⟨_, _, .wide⟩
          exact .inr (.inr ⟨⟨.badEscape b, Byte.backslash :: b :: rest⟩,
            by simp [Lexeme.stringBody, simple, short, wide], by rintro _ ⟨⟩⟩)
  | codePoint owed code =>
      cases digit : b.isHexDigit with
      | true =>
          rcases Nat.lt_or_ge 1 owed with more | last
          · exact .inl ⟨_, _, .digit digit more⟩
          · exact .inl ⟨_, _, .lastDigit digit last⟩
      | false =>
          exact .inr (.inr ⟨⟨.badCodePointEscape, b :: rest⟩,
            by simp [Lexeme.stringBody, digit], by rintro _ ⟨⟩⟩)

theorem scans_of_stringBody (h : stringBody opening mark long state s = .ok (value, behind)) :
    Scans mark long state s value behind := by
  induction s generalizing state value with
  | nil => cases state <;> cases h
  | cons b rest ih =>
      obtain ⟨bytes, state', moves⟩ | ⟨_, closed⟩ | ⟨fault, failed, _⟩ :=
        stringBody_cons opening mark long state b rest
      · rw [moves.stringBody] at h
        obtain ⟨inner, found, rfl⟩ := addBytes_eq_ok h
        exact .step moves (ih found)
      · obtain ⟨rfl, rfl⟩ := Prod.mk.inj (Except.ok.inj ((closed.stringBody opening).symm.trans h))
        exact closed
      · cases failed.symm.trans h

theorem Scans.length_le (h : Scans mark long state (b :: rest) value behind) :
    behind.length ≤ rest.length :=
  Nat.le_of_lt_succ (length_of_stringBody (h.stringBody []))

/-- What a scanner reports in a string is never that a byte opens no lexeme. -/
theorem cause_of_stringBody {fault : Fault}
    (h : stringBody opening mark long state s = .error fault) (found : Byte) :
    fault.cause ≠ .unexpectedByte found := by
  induction s generalizing state with
  | nil =>
      cases state <;>
        · obtain rfl := Except.error.inj h
          rintro ⟨⟩
  | cons b rest ih =>
      obtain ⟨bytes, state', moves⟩ | ⟨_, closed⟩ | ⟨raised, failed, cause⟩ :=
        stringBody_cons opening mark long state b rest
      · rw [moves.stringBody] at h
        cases inner : stringBody opening mark long state' rest with
        | ok pair =>
            rw [inner] at h
            cases h
        | error raised =>
            rw [inner] at h
            obtain rfl := Except.error.inj h
            exact ih inner
      · cases (closed.stringBody opening).symm.trans h
      · obtain rfl := Except.error.inj (failed.symm.trans h)
        exact cause found

end SparqlMetrics.Lexeme
