import SparqlMetrics.Proofs.Token.Opens
import SparqlMetrics.Proofs.Tree.Legal
import SparqlMetrics.Written.Term

/-!
# The lexemes of written texts

How the marks, numbers, strings, labels and names of a written query open the text they stand in.
A mark that could be the start of a longer one needs to know the byte behind it; an operator is
written between spaces.
-/
namespace SparqlMetrics

open Lexeme

/-- A text whose first byte, if it has one, is not a given one. -/
abbrev Avoids (b : Byte) (s : Text) : Prop := StopsAt (· == b) s

theorem avoids_of_head? {b : Byte} {s : Text} (h : Avoids b s) : s.head? ≠ some b := by
  intro same
  have distinct := h b same
  simp at distinct

/-- A byte that may go on with the token in front of it: a name or a string that ends with quotes. -/
def Byte.clings (b : Byte) : Bool := b.continuesName || b == Byte.quote

/-- A text that no token in front of it goes on into. -/
abbrev Parts (s : Text) : Prop := StopsAt Byte.clings s

theorem Parts.breaks {s : Text} (h : Parts s) : Breaks s :=
  h.weaken fun _ neither => (Bool.or_eq_false_iff.mp neither).1

theorem Parts.avoids_quote {s : Text} (h : Parts s) : Avoids Byte.quote s :=
  h.weaken fun _ neither => (Bool.or_eq_false_iff.mp neither).2

theorem Parts.stopsAt_isNameByte {s : Text} (h : Parts s) : StopsAt Byte.isNameByte s :=
  h.breaks.weaken fun _ neither => continuesName_of_isNameByte neither

namespace Lexeme

theorem opens_plain {s : Symbol} (h : s ∈ Symbol.plain) (rest : Text) :
    Opens (s.text ++ rest) (.symbol s) rest := by
  cases s <;> first | exact ⟨rfl, rfl⟩ | exact absurd h (by decide)

/-- A byte that is a mark on its own, whatever follows it. -/
theorem opens_byte {b : Byte} {s : Symbol} (h : Symbol.ofByte? b = some s) (rest : Text) :
    Opens (b :: rest) (.symbol s) rest := by
  have member := List.mem_of_find?_eq_some h
  have spelled := List.find?_some h
  have opens := opens_plain member rest
  rwa [eq_of_beq spelled] at opens

theorem opens_bang {rest : Text} (h : Avoids Byte.equals rest) :
    Opens (Byte.bang :: rest) (.symbol .bang) rest := by
  refine opens_of_readFrom ?_ rfl (by decide)
  show Except.ok (markOf Byte.equals .notEqual .bang rest) = _
  rw [markOf, if_neg (avoids_of_head? h)]

theorem opens_caret {rest : Text} (h : Avoids Byte.caret rest) :
    Opens (Byte.caret :: rest) (.symbol .caret) rest := by
  refine opens_of_readFrom ?_ rfl (by decide)
  show Except.ok (markOf Byte.caret .doubleCaret .caret rest) = _
  rw [markOf, if_neg (avoids_of_head? h)]

theorem opens_pipe {rest : Text} (h : Avoids Byte.pipe rest) :
    Opens (Byte.pipe :: rest) (.symbol .pipe) rest := by
  refine opens_of_readFrom ?_ rfl (by decide)
  show Except.ok (markOf Byte.pipe .orOr .pipe rest) = _
  rw [markOf, if_neg (avoids_of_head? h)]

theorem opens_doubleCaret (rest : Text) :
    Opens (utf8 "^^" ++ rest) (.symbol .doubleCaret) rest := ⟨rfl, rfl⟩

theorem readVariable?_of_stops {rest : Text} (h : StopsAt Byte.isNameByte rest) :
    readVariable? rest = none := by
  rw [readVariable?, h.takeWhile]
  rfl

theorem opens_question {rest : Text} (h : StopsAt Byte.isNameByte rest) :
    Opens (Byte.question :: rest) (.symbol .question) rest := by
  refine opens_of_readFrom ?_ rfl (by decide)
  show ((readVariable? rest).getD (.symbol .question, rest) |> Except.ok) = _
  rw [readVariable?_of_stops h]
  rfl

theorem opens_variable {name rest : Text} (h : IsVariableName name)
    (stops : StopsAt Byte.isNameByte rest) :
    Opens (Byte.question :: (name ++ rest)) (.variableName name) rest := by
  refine opens_of_readFrom ?_ rfl (by decide)
  have found : readVariable? (name ++ rest) = some (.variableName name, rest) := by
    rw [readVariable?]
    simp [takeWhile_run h.2 stops, dropWhile_run h.2 stops, h.1]
  show ((readVariable? (name ++ rest)).getD (.symbol .question, name ++ rest) |> Except.ok) = _
  rw [found]
  rfl

/-- A mark before a space is read as it is written. -/
theorem opens_symbol (s : Symbol) (rest : Text) :
    Opens (s.text ++ Byte.space :: rest) (.symbol s) (Byte.space :: rest) := by
  cases s <;> exact ⟨rfl, rfl⟩

/-- A run of name bytes, hyphens and dots without a dot at its end is a local name. -/
theorem localName_run {blank : Bool} {name rest : Text}
    (all : ∀ b ∈ name, (b.isNameByte || b == Byte.hyphen || b == Byte.dot) = true)
    (noDot : name.getLast? ≠ some Byte.dot) (breaks : Breaks rest) :
    localName blank (name ++ rest) = (name, rest) := by
  induction name with
  | nil => exact localName_of_breaks breaks
  | cons b more ih =>
      have head := all b List.mem_cons_self
      have plain : (b == Byte.backslash) = false ∧ (b == Byte.percent) = false :=
        Byte.forall_of_digits (P := fun b => (b.isNameByte || b == Byte.hyphen || b == Byte.dot) = true →
          (b == Byte.backslash) = false ∧ (b == Byte.percent) = false) (by decide) b head
      cases more with
      | nil =>
          have solid : (b.isNameByte || b == Byte.hyphen) = true := by
            have other : (b == Byte.dot) = false := by simpa using noDot
            simpa [other] using head
          have tail : localName blank rest = ([], rest) := localName_of_breaks breaks
          rw [List.cons_append, localName.eq_def]
          simp [plain, solid, tail]
      | cons b' more =>
          have tail : localName blank (b' :: more ++ rest) = (b' :: more, rest) := by
            refine ih (fun c member => all c (List.mem_cons_of_mem _ member)) ?_
            simpa using noDot
          rw [List.cons_append] at tail
          rw [List.cons_append, List.cons_append, localName.eq_def]
          by_cases solid : (b.isNameByte || b == Byte.hyphen) = true
          · simp [plain, solid, tail]
          · have dot : (b == Byte.dot) = true := by
              rw [Bool.or_eq_true] at head
              exact head.resolve_left solid
            simp only [Bool.not_eq_true] at solid
            have colon : (b == Byte.colon) = false := by
              rw [beq_iff_eq.mp dot]
              rfl
            simp [plain, solid, dot, colon, tail]

theorem opens_blankLabel {label rest : Text} (h : IsBlankLabel label) (breaks : Breaks rest) :
    Opens (utf8 "_:" ++ label ++ rest) (.blankNodeLabel label) rest := by
  obtain ⟨nonempty, all, noDot⟩ := h
  have found : localName true (label ++ rest) = (label, rest) := localName_run all noDot breaks
  have named : readPrefixedName [Byte.underscore] (label ++ rest) =
      .ok (.blankNodeLabel label, rest) := by
    rw [readPrefixedName, found]
    cases label with
    | nil => exact absurd rfl nonempty
    | cons b more => rfl
  have word : readWord (Byte.underscore :: Byte.colon :: (label ++ rest)) =
      readPrefixedName [Byte.underscore] (label ++ rest) := rfl
  have cut : utf8 "_:" ++ label ++ rest = Byte.underscore :: Byte.colon :: (label ++ rest) := by
    have marks : utf8 "_:" = [Byte.underscore, Byte.colon] := by decide
    rw [marks, List.append_assoc]
    rfl
  rw [cut]
  exact opens_of_readWord (by decide) (word.trans named) rfl

theorem exponentSign_append {sign digits : Text} (h : IsSign sign) (run : IsDigits digits)
    (rest : Text) : exponentSign (sign ++ digits ++ rest) = (sign, digits ++ rest) := by
  rcases h with rfl | rfl | rfl
  · cases digits with
    | nil => exact absurd rfl run.1
    | cons b more =>
        have plain : b ≠ Byte.plus ∧ b ≠ Byte.hyphen :=
          Byte.forall_of_digits (P := fun b => b.isDigit = true → b ≠ Byte.plus ∧ b ≠ Byte.hyphen)
            (by decide) b (run.2 b List.mem_cons_self)
        simp [exponentSign, plain]
  · rfl
  · rfl

theorem exponent?_append {e : Byte} {sign digits rest : Text} (letter : e = 0x65 ∨ e = 0x45)
    (hsign : IsSign sign) (run : IsDigits digits) (stops : StopsAt Byte.isDigit rest) :
    exponent? (e :: sign ++ digits ++ rest) = some (e :: sign ++ digits, rest) := by
  have isLetter : (e == 0x65 || e == 0x45) = true := by simpa using letter
  rw [List.cons_append, List.cons_append, exponent?]
  simp only [isLetter, if_true, exponentSign_append hsign run, takeWhile_run run.2 stops,
    dropWhile_run run.2 stops]
  simp [run.1]

theorem readNumber_of_mantissa {kind : NumberKind} {m behind : Text} (h : IsMantissa kind m)
    (stops : StopsAt (fun b => b.isDigit || b == Byte.dot) behind) :
    readNumber (m ++ behind) =
      match exponent? behind with
      | some (exponent, rest) => (.number .double (m ++ exponent), rest)
      | none => (.number kind m, behind) := by
  have noDigit : StopsAt Byte.isDigit behind :=
    stops.weaken fun b neither => (Bool.or_eq_false_iff.mp neither).1
  cases h with
  | integer run =>
      have noFraction : fraction? behind = none := by
        cases behind with
        | nil => rfl
        | cons b rest =>
            have noDot := (Bool.or_eq_false_iff.mp (stops b rfl)).2
            simp [fraction?, noDot]
      cases found : exponent? behind <;>
        simp [readNumber, takeWhile_run run.2 noDigit, dropWhile_run run.2 noDigit, noFraction,
          found]
  | @decimal whole fraction run run' =>
      have dot : StopsAt Byte.isDigit (Byte.dot :: (fraction ++ behind)) :=
        stopsAt_cons (by decide)
      have found : fraction? (Byte.dot :: (fraction ++ behind)) =
          some (Byte.dot :: fraction, behind) := by
        simp [fraction?, takeWhile_run run'.2 noDigit, dropWhile_run run'.2 noDigit, run'.1]
      rw [List.append_assoc, List.cons_append]
      cases exponent : exponent? behind <;>
        simp [readNumber, takeWhile_run run.2 dot, dropWhile_run run.2 dot, found, exponent]

theorem readNumber_append {kind : NumberKind} {digits rest : Text} (h : IsNumeral kind digits)
    (breaks : Breaks rest) : readNumber (digits ++ rest) = (.number kind digits, rest) := by
  have stops : StopsAt (fun b => b.isDigit || b == Byte.dot) rest :=
    breaks.weaken fun b neither =>
      Byte.forall_of_digits (P := fun b => b.continuesName = false → (b.isDigit || b == Byte.dot) = false)
        (by decide) b neither
  cases h with
  | plain mantissa =>
      have noExponent : exponent? rest = none := by
        cases rest with
        | nil => rfl
        | cons b more =>
            have noLetter : (b == 0x65 || b == 0x45) = false :=
              Byte.forall_of_digits
                (P := fun b => b.continuesName = false → (b == 0x65 || b == 0x45) = false)
                (by decide) b (breaks b rfl)
            simp [exponent?, noLetter]
      rw [readNumber_of_mantissa mantissa stops, noExponent]
  | @double kind mantissa sign run e isMantissa letter hsign hrun =>
      have noDigit : StopsAt Byte.isDigit rest :=
        stops.weaken fun b neither => (Bool.or_eq_false_iff.mp neither).1
      have found := exponent?_append letter hsign hrun noDigit
      have opening : StopsAt (fun b => b.isDigit || b == Byte.dot) (e :: sign ++ run ++ rest) := by
        refine stopsAt_cons ?_
        rcases letter with rfl | rfl <;> rfl
      have cut : mantissa ++ e :: sign ++ run ++ rest = mantissa ++ (e :: sign ++ run ++ rest) := by
        simp
      rw [cut, readNumber_of_mantissa isMantissa opening, found]
      simp

theorem isDigit_head_numeral {kind : NumberKind} {digits : Text} (h : IsNumeral kind digits) :
    ∃ b more, digits = b :: more ∧ b.isDigit = true := by
  have mantissa : ∀ {kind : NumberKind} {m : Text}, IsMantissa kind m →
      ∃ b more, m = b :: more ∧ b.isDigit = true := by
    intro kind m hm
    have run : ∀ {run : Text}, IsDigits run → ∃ b more, run = b :: more ∧ b.isDigit = true := by
      intro run hrun
      cases run with
      | nil => exact absurd rfl hrun.1
      | cons b more => exact ⟨b, more, rfl, hrun.2 b List.mem_cons_self⟩
    cases hm with
    | integer hrun => exact run hrun
    | decimal hrun _ =>
        obtain ⟨b, more, rfl, digit⟩ := run hrun
        exact ⟨b, _, rfl, digit⟩
  cases h with
  | plain hm => exact mantissa hm
  | double hm _ _ _ =>
      obtain ⟨b, more, rfl, digit⟩ := mantissa hm
      exact ⟨b, _, rfl, digit⟩

theorem opens_number {kind : NumberKind} {digits rest : Text} (h : IsNumeral kind digits)
    (breaks : Breaks rest) : Opens (digits ++ rest) (.number kind digits) rest := by
  have found := readNumber_append h breaks
  obtain ⟨b, more, rfl, digit⟩ := isDigit_head_numeral h
  have name : b.isNameByte = true := by simp [Byte.isNameByte, Byte.isAlnum, digit]
  refine opens_of_readFrom (s := more ++ rest) ?_ rfl (solid_of_isNameByte name)
  rw [readFrom_of_isNameByte name, readRun, digit]
  exact congrArg Except.ok found

/-- Whether a text between quotes is read as a given byte. -/
structure StandsFor (s : Text) (b : Byte) : Prop where
  body : ∀ opening rest, stringBody opening Byte.quote false .plain (s ++ rest) =
    addBytes [b] (stringBody opening Byte.quote false .plain rest)
  nonempty : s ≠ []
  avoids : Avoids Byte.quote s

theorem standsFor_self {b : Byte} (quote : b ≠ Byte.quote) (backslash : b ≠ Byte.backslash)
    (newline : b ≠ Byte.newline) (carriageReturn : b ≠ Byte.carriageReturn) : StandsFor [b] b where
  body _ _ := by simp [stringBody, quote, backslash, newline, carriageReturn]
  nonempty := List.cons_ne_nil _ _
  avoids := stopsAt_cons (beq_false_of_ne quote)

theorem standsFor_escapeByte (b : Byte) : StandsFor (escapeByte b) b := by
  have escape {s : Text} (body : ∀ opening rest,
      stringBody opening Byte.quote false .plain (Byte.backslash :: s ++ rest) =
        addBytes [b] (stringBody opening Byte.quote false .plain rest)) :
      StandsFor (Byte.backslash :: s) b :=
    ⟨body, List.cons_ne_nil _ _, stopsAt_cons (by decide)⟩
  unfold escapeByte
  split
  · next special =>
    rcases Bool.or_eq_true .. ▸ special with same | same
    · obtain rfl := beq_iff_eq.mp same
      exact escape fun _ _ => rfl
    · obtain rfl := beq_iff_eq.mp same
      exact escape fun _ _ => rfl
  split
  · next same =>
    obtain rfl := beq_iff_eq.mp same
    exact escape fun _ _ => rfl
  split
  · next same =>
    obtain rfl := beq_iff_eq.mp same
    exact escape fun _ _ => rfl
  split
  · next same =>
    obtain rfl := beq_iff_eq.mp same
    exact escape fun _ _ => rfl
  · next special newline carriageReturn _ =>
    simp only [Bool.or_eq_true, beq_iff_eq, not_or] at special newline carriageReturn
    exact standsFor_self special.2 special.1 newline carriageReturn

section Escaped

variable {escape : Byte → Text} {value : Text}

theorem stringBody_flatMap (h : ∀ b ∈ value, StandsFor (escape b) b) (opening rest : Text) :
    stringBody opening Byte.quote false .plain (value.flatMap escape ++ Byte.quote :: rest) =
      .ok (value, rest) := by
  induction value with
  | nil => rfl
  | cons b more ih =>
      have tail := ih fun c member => h c (List.mem_cons_of_mem _ member)
      rw [List.flatMap_cons, List.append_assoc, (h b List.mem_cons_self).body, tail]
      rfl

/-- An escaped string that is no quote away from another one is a short one. -/
theorem opens_string (h : ∀ b ∈ value, StandsFor (escape b) b) {rest : Text}
    (avoids : Avoids Byte.quote rest) :
    Opens (Byte.quote :: (value.flatMap escape ++ Byte.quote :: rest)) (.string value false)
      rest := by
  have short : [Byte.quote, Byte.quote].isPrefixOf
      (value.flatMap escape ++ Byte.quote :: rest) = false := by
    cases value with
    | nil =>
        cases rest with
        | nil => rfl
        | cons b more =>
            have other := avoids b rfl
            simp only [beq_eq_false_iff_ne, ne_eq] at other
            simp [List.isPrefixOf, Ne.symm other]
    | cons b more =>
        have head := h b List.mem_cons_self
        rw [List.flatMap_cons]
        cases spelled : escape b with
        | nil => exact absurd spelled head.nonempty
        | cons c tail =>
            have other := head.avoids c (by rw [spelled]; rfl)
            simp only [beq_eq_false_iff_ne, ne_eq] at other
            simp [List.isPrefixOf, Ne.symm other]
  have body : readString Byte.quote (value.flatMap escape ++ Byte.quote :: rest) =
      .ok (.string value false, rest) := by
    rw [readString]
    simp only [short, Bool.false_eq_true, if_false, stringBody_flatMap h]
  exact opens_of_readFrom body rfl (by decide)

end Escaped

theorem opens_quoted {value rest : Text} (h : Avoids Byte.quote rest) :
    Opens (quoted value ++ rest) (.string value false) rest := by
  have opens := opens_string (fun b (_ : b ∈ value) => standsFor_escapeByte b) h
  simpa [quoted] using opens

theorem opens_languageTag {tag rest : Text} (h : IsLanguageTag tag) (breaks : Breaks rest) :
    Opens (Byte.atSign :: (tag ++ rest)) (.languageTag tag) rest := by
  have stops : StopsAt isTagByte rest :=
    breaks.weaken fun b neither =>
      Byte.forall_of_digits (P := fun b => b.continuesName = false → isTagByte b = false)
        (by decide) b neither
  have found : readLanguageTag (tag ++ rest) = .ok (.languageTag tag, rest) := by
    rw [readLanguageTag]
    simp only [takeWhile_run h.2 stops, dropWhile_run h.2 stops, h.1, if_true]
  exact opens_of_readFrom found rfl (by decide)

end Lexeme

end SparqlMetrics
