import SparqlMetrics.Proofs.Declarations
import SparqlMetrics.Proofs.Grammar.Sources
import SparqlMetrics.Proofs.Grammar.Yields
import SparqlMetrics.Proofs.Tree.Strings

/-!
# What actions of the grammar answer

An action answers with a result or with an error, and here both are accounted for: a result has a
property, and the tokens passed over up to the cursor that is returned do not open a base
declaration; an error is raised at a cursor that is reached in the same way, for a reason that can be
read off its token. The texts in results and in messages are of a class when those of the tokens
ahead are, and blank nodes come from sources among those tokens. There is one rule for each way of
composing actions; a condition on the cursor says where an action runs.
-/
namespace SparqlMetrics

/-- Declarations whose texts are of a class, and what blank nodes may come from. -/
structure Scope where
  texts : TextClass
  namespaces : Namespaces
  keeps : texts.Keeps namespaces.strings
  sources : List (Nat × BlankSource)

/-- The check that all texts of a tree are of the class and its blank nodes come from the sources. -/
def Scope.checks (S : Scope) : NodeChecks :=
  { S.texts.checks with term := fun t => S.texts.Keeps t.node.strings ∧ t.ComesFrom S.sources }

theorem Scope.implies_sources (S : Scope) : S.checks.Implies (sourceChecks S.sources) :=
  ⟨fun _ h => h.2, fun _ _ => trivial, fun _ _ => trivial, fun _ _ => trivial, fun _ _ => trivial,
    fun _ _ => trivial⟩

theorem Scope.implies_texts (S : Scope) : S.checks.Implies S.texts.checks :=
  ⟨fun _ h => h.1, fun _ h => h, fun _ h => h, fun _ h => h, fun _ h => h, fun _ h => h⟩

/-- Whether a lexeme opens no base declaration. -/
def Lexeme.OpensNoBase (here : Lexeme) : Prop := here.keyword? ≠ some .BASE

/-- Whether a lexeme opens neither a base declaration nor a blank node between brackets. -/
def Lexeme.isPassable : Lexeme → Bool
  | .keyword .BASE _ => false
  | .symbol .lbracket => false
  | _ => true

namespace Lexeme

variable {here : Lexeme}

theorem opensNoBase_of_isPassable (h : here.isPassable = true) : here.OpensNoBase := by
  cases here with
  | keyword k word =>
      rintro same
      obtain rfl := Option.some.inj same
      cases h
  | _ => nofun

theorem ne_lbracket_of_isPassable (h : here.isPassable = true) : here ≠ .symbol .lbracket := by
  rintro rfl
  cases h

theorem isPassable_of_keyword? {k : Keyword} (h : here.keyword? = some k) (other : k ≠ .BASE) :
    here.isPassable = true := by
  cases here with
  | keyword named word =>
      obtain rfl := Option.some.inj h
      cases named with
      | BASE => exact absurd rfl other
      | _ => rfl
  | _ => cases h

theorem isPassable_symbol {s : Symbol} (other : s ≠ .lbracket) : (symbol s).isPassable = true := by
  cases s with
  | lbracket => exact absurd rfl other
  | _ => rfl

end Lexeme

namespace Cursor

/-- Whether the texts of all tokens ahead are of a class. -/
structure Within (T : TextClass) (c : Cursor) : Prop where
  ahead : ∀ t ∈ c.ahead, T.Keeps t.lexeme.strings
  last : T.Keeps c.last.lexeme.strings
  terminal : c.last.lexeme.isTerminal = true

/-- Whether a cursor lies behind another one in the same stream, with no token between them that
opens a base declaration. The blank nodes of brackets between them have been named. -/
structure Passes (c d : Cursor) : Prop where
  tokens : ∃ passed, c.ahead = passed ++ d.ahead ∧ ∀ t ∈ passed, t.lexeme.OpensNoBase
  last : d.last = c.last
  sources : d.blankSources <:+ c.blankSources

variable {T : TextClass} {c d e : Cursor}

theorem Passes.refl (c : Cursor) : c.Passes c := ⟨⟨[], rfl, nofun⟩, rfl, List.suffix_rfl⟩

theorem Passes.trans (h : c.Passes d) (h' : d.Passes e) : c.Passes e := by
  obtain ⟨passed, ahead, free⟩ := h.tokens
  obtain ⟨passed', ahead', free'⟩ := h'.tokens
  refine ⟨⟨passed ++ passed', by rw [ahead, ahead', List.append_assoc], ?_⟩, h'.last.trans h.last,
    h'.sources.trans h.sources⟩
  exact List.forall_mem_append.mpr ⟨free, free'⟩

/-- A token that opens no base declaration is taken from those ahead. -/
theorem exists_passed (free : c.token.lexeme.OpensNoBase) :
    ∃ passed, c.ahead = passed ++ c.advance.ahead ∧ ∀ t ∈ passed, t.lexeme.OpensNoBase := by
  obtain ⟨ahead, last, count⟩ := c
  cases ahead with
  | nil => exact ⟨[], rfl, nofun⟩
  | cons t rest => exact ⟨[t], rfl, List.forall_mem_singleton.mpr free⟩

/-- A token that opens neither a base declaration nor brackets is passed over. -/
theorem passes_advance (passable : c.token.lexeme.isPassable = true) : c.Passes c.advance :=
  ⟨exists_passed (Lexeme.opensNoBase_of_isPassable passable), rfl,
    blankSources_advance (Lexeme.ne_lbracket_of_isPassable passable)⟩

/-- Brackets are passed over when their blank node is named. -/
theorem passes_brackets (last : c.last.lexeme.isTerminal = true)
    (here : c.token.lexeme = .symbol .lbracket) :
    c.Passes { c.advance with blankCount := c.blankCount + 1 } := by
  refine ⟨exists_passed (here ▸ nofun), rfl, ?_⟩
  rw [blankSources_brackets last here]
  exact List.suffix_cons _ _

theorem Within.suffix (h : c.Within T) (suffix : d.ahead <:+ c.ahead) (last : d.last = c.last) :
    d.Within T :=
  ⟨fun t member => h.ahead t (suffix.subset member), last ▸ h.last, last ▸ h.terminal⟩

theorem Passes.suffix (h : c.Passes d) : d.ahead <:+ c.ahead := by
  obtain ⟨passed, ahead, _⟩ := h.tokens
  exact ⟨passed, ahead.symm⟩

theorem Passes.length_le (h : c.Passes d) : d.ahead.length ≤ c.ahead.length := h.suffix.length_le

theorem Within.passes (h : c.Within T) (passes : c.Passes d) : d.Within T :=
  h.suffix passes.suffix passes.last

theorem Within.token (h : c.Within T) : T.Keeps c.token.lexeme.strings := by
  obtain ⟨ahead, last, count⟩ := c
  cases ahead with
  | nil => exact h.last
  | cons t rest => exact h.ahead t List.mem_cons_self

end Cursor

/-- Whether a cursor stands in a scope: the texts ahead are of its class, and the sources of blank
nodes ahead are among its own. -/
structure Scope.Covers (S : Scope) (c : Cursor) : Prop where
  within : c.Within S.texts
  sources : c.blankSources <:+ S.sources

theorem Scope.Covers.passes {S : Scope} {c d : Cursor} (h : S.Covers c) (passes : c.Passes d) :
    S.Covers d :=
  ⟨h.within.passes passes, passes.sources.trans h.sources⟩

/-- Whether the label that is written at a token, if any, is a source there. -/
def Scope.Labels (S : Scope) (t : Token) : Prop :=
  ∀ label, t.lexeme = .blankNodeLabel label → (t.start, .written label) ∈ S.sources

theorem Scope.Covers.labels {S : Scope} {c : Cursor} (h : S.Covers c) : S.Labels c.token :=
  fun _ here => h.sources.subset (Cursor.mem_blankSources_written h.within.terminal here)

/-- Why an error is raised at a cursor: no token can be read there; the message is made of texts of
the class; the label of a name is not declared; a relative reference has no base. -/
inductive Scope.Raises (S : Scope) (c : Cursor) : ParseError → Prop
  | lexical {fault : LexicalFault} : c.token.lexeme = .invalid fault →
      S.Raises c ⟨.malformed (.lexical fault), c.token.start⟩
  | malformed {cause : Malformed} : S.texts.Holds cause.message →
      S.Raises c ⟨.malformed cause, c.token.start⟩
  | undeclaredPrefix {label localName : Text} : c.token.lexeme = .prefixedName label localName →
      S.namespaces.find? label = none → S.Raises c ⟨.undeclaredPrefix label, c.token.start⟩
  | missingBase {reference : Text} : c.token.lexeme = .iri reference →
      Iri.hasScheme reference = false → S.namespaces.base = none →
      S.Raises c ⟨.missingBase reference, c.token.start⟩

namespace Parser

variable {α β σ : Type} {S : Scope} {A B : Cursor → Prop} {P : α → Prop} {Q : β → Prop}

/-- An answer that is accounted for. -/
def Accounted (S : Scope) (c : Cursor) (P : α → Prop) : Except ParseError (α × Cursor) → Prop
  | .ok (x, c') => P x ∧ c.Passes c'
  | .error e => ∃ d, c.Passes d ∧ S.Raises d e

/-- Whether an action accounts for its answers where a condition on the cursor holds. -/
def AnswersIf (S : Scope) (A : Cursor → Prop) (p : Parser α) (P : α → Prop) : Prop :=
  ∀ c, S.Covers c → A c → Accounted S c P (p c)

/-- Whether an action accounts for its answers everywhere. -/
abbrev Answers (S : Scope) (p : Parser α) (P : α → Prop) : Prop := AnswersIf S (fun _ => True) p P

/-- Whether an action accounts for its answers where a given lexeme stands. -/
abbrev AnswersAt (S : Scope) (here : Lexeme) (p : Parser α) (P : α → Prop) : Prop :=
  AnswersIf S (·.token.lexeme = here) p P

theorem AnswersIf.weaken {p : Parser α} (hp : AnswersIf S A p P) (h : ∀ c, B c → A c) :
    AnswersIf S B p P := fun c covers holds => hp c covers (h c holds)

theorem Answers.at {p : Parser α} (hp : Answers S p P) : AnswersIf S A p P :=
  hp.weaken fun _ _ => trivial

/-- An answer behind a place that was passed to. -/
theorem Accounted.behind {c d : Cursor} {r : Except ParseError (α × Cursor)} (passes : c.Passes d)
    (h : Accounted S d P r) : Accounted S c P r := by
  cases r with
  | ok pair => exact ⟨h.1, passes.trans h.2⟩
  | error e =>
      obtain ⟨place, reached, raised⟩ := h
      exact ⟨place, passes.trans reached, raised⟩

theorem answers_pure {x : α} (h : P x) : AnswersIf S A (pure x) P :=
  fun c _ _ => ⟨h, .refl c⟩

/-- An action and one behind it that asks where the first one stops. -/
theorem AnswersIf.bindIf {p : Parser α} {f : α → Parser β} {B : α → Cursor → Prop}
    (hp : AnswersIf S A p P)
    (stops : ∀ c x c', S.Covers c → A c → p c = .ok (x, c') → B x c')
    (hf : ∀ x, P x → AnswersIf S (B x) (f x) Q) : AnswersIf S A (p >>= f) Q := by
  intro c covers holds
  have first := hp c covers holds
  cases read : p c with
  | error e =>
      rw [TwoRuns.bind_eq_of_error read]
      rw [read] at first
      exact first
  | ok pair =>
      obtain ⟨x, c'⟩ := pair
      rw [TwoRuns.bind_eq_of_ok read]
      rw [read] at first
      have place := stops c x c' covers holds read
      exact (hf x first.1 c' (covers.passes first.2) place).behind first.2

theorem AnswersIf.bind {p : Parser α} {f : α → Parser β} (hp : AnswersIf S A p P)
    (hf : ∀ x, P x → Answers S (f x) Q) : AnswersIf S A (p >>= f) Q :=
  hp.bindIf (B := fun _ _ => True) (fun _ _ _ _ _ _ => trivial) hf

theorem AnswersIf.map {p : Parser α} {f : α → β} (hp : AnswersIf S A p P)
    (hf : ∀ x, P x → Q (f x)) : AnswersIf S A (f <$> p) Q := by
  rw [← bind_pure_comp]
  exact hp.bind fun x hx => answers_pure (hf x hx)

/-- What an answer says that is no error. -/
theorem AnswersIf.of_ok {p : Parser α} (hp : AnswersIf S A p P) {c c' : Cursor} {x : α}
    (covers : S.Covers c) (holds : A c) (read : p c = .ok (x, c')) : P x ∧ c.Passes c' := by
  have answer := hp c covers holds
  rw [read] at answer
  exact answer

/-! ## Errors -/

theorem raises_error {c : Cursor} {cause : Malformed}
    (h : (∀ fault, c.token.lexeme ≠ .invalid fault) → S.texts.Holds cause.message) :
    S.Raises c (c.error cause) := by
  unfold Cursor.error
  split
  · next same => exact .lexical same
  · next other => exact .malformed (h other)

theorem accounted_error {c : Cursor} {cause : Malformed}
    (h : (∀ fault, c.token.lexeme ≠ .invalid fault) → S.texts.Holds cause.message) :
    Accounted S c P (.error (c.error cause) : Except ParseError (α × Cursor)) :=
  ⟨c, .refl c, raises_error h⟩

theorem answers_fail {cause : Malformed} (h : S.texts.Holds cause.message) :
    AnswersIf S A (fail cause) P := fun _ _ _ => accounted_error fun _ => h

theorem answers_expected (e : Expectation) : AnswersIf S A (expected e) P :=
  answers_fail (S.texts.append (S.texts.constant _) (S.texts.constant _))

/-! ## Looking ahead -/

/-- An action that reads something off the cursor and leaves it in place. -/
theorem AnswersIf.read {g : Cursor → α} {f : α → Parser β}
    (hf : ∀ x, AnswersIf S (fun c => A c ∧ g c = x) (f x) Q) :
    AnswersIf S A ((fun c => .ok (g c, c) : Parser α) >>= f) Q := by
  intro c covers holds
  rw [TwoRuns.bind_eq_of_ok (show (fun c => .ok (g c, c) : Parser α) c = .ok (g c, c) from rfl)]
  exact hf (g c) c covers ⟨holds, rfl⟩

theorem AnswersIf.drop {g : Cursor → α} {f : α → Parser β} (hf : ∀ x, AnswersIf S A (f x) Q) :
    AnswersIf S A ((fun c => .ok (g c, c) : Parser α) >>= f) Q :=
  .read fun x => (hf x).weaken fun _ holds => holds.1

theorem AnswersIf.position {f : Nat → Parser β} (hf : ∀ n, AnswersIf S A (f n) Q) :
    AnswersIf S A (position >>= f) Q := .drop hf

theorem AnswersIf.followingLexeme {f : Lexeme → Parser β} (hf : ∀ l, AnswersIf S A (f l) Q) :
    AnswersIf S A (followingLexeme >>= f) Q := .drop hf

theorem AnswersIf.remaining {f : Nat → Parser β} (hf : ∀ n, AnswersIf S A (f n) Q) :
    AnswersIf S A (remaining >>= f) Q := .drop hf

/-- To look at the lexeme is to know where an action runs. -/
theorem answers_lexeme {f : Lexeme → Parser β}
    (hf : ∀ here, S.texts.Keeps here.strings → AnswersAt S here (f here) Q) :
    Answers S (lexeme >>= f) Q := by
  intro c covers _
  rw [TwoRuns.bind_eq_of_ok (show lexeme c = .ok (c.token.lexeme, c) from rfl)]
  exact hf _ covers.within.token c covers rfl

/-- To look at a token is to know where an action runs, and that a label there is a source. -/
theorem AnswersAt.token {here : Lexeme} {f : Token → Parser β}
    (hf : ∀ t : Token, t.lexeme = here → S.texts.Keeps here.strings → S.Labels t →
      AnswersAt S here (f t) Q) : AnswersAt S here (token >>= f) Q := by
  intro c covers same
  rw [TwoRuns.bind_eq_of_ok (show Parser.token c = .ok (c.token, c) from rfl)]
  exact hf _ same (same ▸ covers.within.token) covers.labels c covers same

/-- Without a lexeme that is known, every one is possible. -/
theorem answers_of_at {p : Parser α} (h : ∀ here, AnswersAt S here p P) : Answers S p P :=
  fun c covers _ => h _ c covers rfl

theorem answers_token {f : Token → Parser β}
    (hf : ∀ t : Token, S.texts.Keeps t.lexeme.strings → AnswersAt S t.lexeme (f t) Q) :
    Answers S (token >>= f) Q :=
  answers_of_at fun here => .token fun t same keeps _ => by
    subst same
    exact hf t keeps

theorem AnswersAt.isAt {here : Lexeme} {s : Symbol} {f : Bool → Parser β}
    (yes : here = .symbol s → AnswersAt S here (f true) Q) (no : AnswersAt S here (f false) Q) :
    AnswersAt S here (isAt s >>= f) Q :=
  .read fun found => by
    cases found with
    | true =>
        intro c covers holds
        have same : here = .symbol s := holds.1.symm.trans (beq_iff_eq.mp holds.2)
        exact yes same c covers holds.1
    | false => exact no.weaken fun _ holds => holds.1

theorem answers_isAt {s : Symbol} {f : Bool → Parser β}
    (yes : AnswersAt S (.symbol s) (f true) Q) (no : Answers S (f false) Q) :
    Answers S (isAt s >>= f) Q :=
  answers_of_at fun _ => .isAt (fun same => same ▸ yes) no.at

theorem AnswersAt.isAtKeyword {here : Lexeme} {k : Keyword} {f : Bool → Parser β}
    (yes : here.keyword? = some k → AnswersAt S here (f true) Q)
    (no : AnswersAt S here (f false) Q) : AnswersAt S here (isAtKeyword k >>= f) Q :=
  .read fun found => by
    cases found with
    | true =>
        intro c covers holds
        have same : here.keyword? = some k := holds.1 ▸ beq_iff_eq.mp holds.2
        exact yes same c covers holds.1
    | false => exact no.weaken fun _ holds => holds.1

/-! ## Passing over tokens -/

theorem answers_pass : AnswersIf S (·.token.lexeme.isPassable = true) skip fun _ => True :=
  fun _ _ passable => ⟨trivial, Cursor.passes_advance passable⟩

/-- To pass over a lexeme that opens neither a base declaration nor brackets. -/
theorem answers_skip {here : Lexeme} (passable : here.isPassable = true) :
    AnswersAt S here skip fun _ => True :=
  answers_pass.weaken fun _ same => same ▸ passable

/-- To pass over a keyword that opens no base declaration. -/
theorem answers_skipKeyword {here : Lexeme} {k : Keyword} (h : here.keyword? = some k)
    (other : k ≠ .BASE) : AnswersAt S here skip fun _ => True :=
  answers_skip (Lexeme.isPassable_of_keyword? h other)

theorem answers_mark {s : Symbol} (other : s ≠ .lbracket) (e : Expectation) :
    Answers S (mark s e) fun _ => True :=
  answers_lexeme fun here _ => by
    split
    · next same =>
      rw [beq_iff_eq.mp same]
      exact answers_skip (Lexeme.isPassable_symbol other)
    · exact answers_expected e

theorem answers_keyword {k : Keyword} (other : k ≠ .BASE) (e : Expectation) :
    Answers S (keyword k e) fun _ => True :=
  answers_of_at fun _ => .isAtKeyword
    (fun same => answers_skipKeyword same other) (answers_expected e)

theorem answers_tryKeyword {k : Keyword} (other : k ≠ .BASE) :
    Answers S (tryKeyword k) fun _ => True :=
  answers_of_at fun _ => .isAtKeyword
    (fun same => (answers_skipKeyword same other).bind fun _ _ =>
      answers_pure trivial)
    (answers_pure trivial)

theorem answers_tryMark {s : Symbol} (other : s ≠ .lbracket) :
    Answers S (tryMark s) fun _ => True :=
  answers_isAt ((answers_skip (Lexeme.isPassable_symbol other)).bind fun _ _ => answers_pure trivial)
    (answers_pure trivial)

theorem answers_variableName (e : Expectation) : Answers S (variableName e) S.texts.Holds :=
  answers_lexeme fun here keeps => by
    split
    · exact (answers_skip rfl).bind fun _ _ => answers_pure (TextClass.keeps_singleton.mp keeps)
    · exact answers_expected e

/-! ## Loops -/

theorem answers_none : AnswersIf S A (pure none) (IfSome P) := answers_pure ifSome_none

theorem AnswersIf.some {p : Parser α} (hp : AnswersIf S A p P) :
    AnswersIf S A (some <$> p) (IfSome P) := hp.map fun _ => ifSome_some

theorem answers_manyUpTo {item : Parser (Option α)} (h : Answers S item (IfSome P)) (bound : Nat) :
    Answers S (manyUpTo item bound) (∀ x ∈ ·, P x) := by
  induction bound with
  | zero => exact answers_pure (by simp)
  | succ bound ih =>
      refine h.bind fun found hfound => ?_
      cases found with
      | none => exact answers_pure (by simp)
      | some x =>
          exact ih.bind fun more hmore =>
            answers_pure (List.forall_mem_cons.mpr ⟨hfound x rfl, hmore⟩)

theorem answers_many {item : Parser (Option α)} (h : Answers S item (IfSome P)) :
    Answers S (many item) (∀ x ∈ ·, P x) := .remaining fun _ => answers_manyUpTo h _

theorem answers_repeatUpTo {change : σ → Parser (Option σ)} {I : σ → Prop}
    (h : ∀ v, I v → Answers S (change v) (IfSome I)) (bound : Nat) :
    ∀ v, I v → Answers S (repeatUpTo change bound v) I := by
  induction bound with
  | zero => exact fun v hv => answers_pure hv
  | succ bound ih =>
      intro v hv
      refine (h v hv).bind fun found hfound => ?_
      cases found with
      | none => exact answers_pure hv
      | some w => exact ih w (hfound w rfl)

theorem answers_repeatFrom {change : σ → Parser (Option σ)} {I : σ → Prop}
    (h : ∀ v, I v → Answers S (change v) (IfSome I)) {v : σ} (hv : I v) :
    Answers S (repeatFrom change v) I := .remaining fun _ => answers_repeatUpTo h _ v hv

/-! ## Taking tokens -/

/-- Whether an action accounts for its answers and has taken a token when it returns. -/
structure Takes (S : Scope) (A : Cursor → Prop) (p : Parser α) (P : α → Prop) : Prop where
  answers : AnswersIf S A p P
  shorter : ∀ c x c', S.Covers c → A c → p c = .ok (x, c') →
    c'.ahead.length < c.ahead.length

theorem takes_skip {here : Lexeme} (passable : here.isPassable = true)
    (full : here.isTerminal = false) : Takes S (·.token.lexeme = here) skip fun _ => True where
  answers := answers_skip passable
  shorter c _ c' covers same read := by
    obtain rfl : c.advance = c' := (Prod.mk.inj (Except.ok.inj read)).2
    exact Grammar.length_advance_lt covers.within.terminal (same ▸ full)

theorem takes_skipKeyword {here : Lexeme} {k : Keyword} (h : here.keyword? = some k)
    (other : k ≠ .BASE) : Takes S (·.token.lexeme = here) skip fun _ => True :=
  takes_skip (Lexeme.isPassable_of_keyword? h other) (Grammar.isTerminal_of_keyword? h)

theorem takes_fail {cause : Malformed} (h : S.texts.Holds cause.message) :
    Takes S A (fail cause) P where
  answers := answers_fail h
  shorter _ _ _ _ _ read := by cases read

theorem takes_expected (e : Expectation) : Takes S A (expected e) P :=
  takes_fail (S.texts.append (S.texts.constant _) (S.texts.constant _))

theorem Takes.weaken {p : Parser α} (hp : Takes S A p P) (h : ∀ c, B c → A c) : Takes S B p P :=
  ⟨hp.answers.weaken h, fun c x c' covers holds => hp.shorter c x c' covers (h c holds)⟩

theorem Takes.at {p : Parser α} (hp : Takes S (fun _ => True) p P) : Takes S A p P :=
  hp.weaken fun _ _ => trivial

theorem Takes.bind {p : Parser α} {f : α → Parser β} (hp : Takes S A p P)
    (hf : ∀ x, P x → Answers S (f x) Q) : Takes S A (p >>= f) Q where
  answers := hp.answers.bind hf
  shorter c y c' covers holds read := by
    obtain ⟨x, c₁, first, rest⟩ := bind_eq_ok.mp read
    have here := hp.answers.of_ok covers holds first
    have behind := (hf x here.1).of_ok (covers.passes here.2) trivial rest
    exact Nat.lt_of_le_of_lt behind.2.length_le (hp.shorter c x c₁ covers holds first)

theorem Takes.some {p : Parser α} (hp : Takes S A p P) : Takes S A (some <$> p) (IfSome P) := by
  rw [← bind_pure_comp]
  exact hp.bind fun x hx => answers_pure (ifSome_some hx)

theorem AnswersIf.takes {p : Parser α} {f : α → Parser β} (hp : AnswersIf S A p P)
    (hf : ∀ x, P x → Takes S (fun _ => True) (f x) Q) : Takes S A (p >>= f) Q where
  answers := hp.bind fun x hx => (hf x hx).answers
  shorter c y c' covers holds read := by
    obtain ⟨x, c₁, first, rest⟩ := bind_eq_ok.mp read
    have here := hp.of_ok covers holds first
    have behind := (hf x here.1).shorter c₁ y c' (covers.passes here.2) trivial rest
    exact Nat.lt_of_lt_of_le behind here.2.length_le

theorem takes_drop {g : Cursor → α} {f : α → Parser β}
    (hf : ∀ x, Takes S (fun _ => True) (f x) Q) :
    Takes S A ((fun c => .ok (g c, c) : Parser α) >>= f) Q :=
  AnswersIf.takes (P := fun _ => True) (fun c _ _ => ⟨trivial, .refl c⟩) fun x _ => hf x

theorem takes_lexeme {f : Lexeme → Parser β}
    (hf : ∀ here, S.texts.Keeps here.strings → Takes S (·.token.lexeme = here) (f here) Q) :
    Takes S (fun _ => True) (lexeme >>= f) Q where
  answers := answers_lexeme fun here keeps => (hf here keeps).answers
  shorter c y c' covers _ read :=
    (hf _ covers.within.token).shorter c y c' covers rfl read

/-- A loop whose items take tokens ends because there is no further item. -/
theorem manyUpTo_stops {item : Parser (Option α)} (h : Answers S item (IfSome P))
    (takes : ∀ c x c', S.Covers c → item c = .ok (some x, c') →
      c'.ahead.length < c.ahead.length) (bound : Nat) :
    ∀ c xs c', S.Covers c → c.ahead.length < bound →
      manyUpTo item bound c = .ok (xs, c') →
        ∃ d, S.Covers d ∧ item d = .ok (none, c') := by
  induction bound with
  | zero => exact fun c xs c' _ enough => absurd enough (Nat.not_lt_zero _)
  | succ bound ih =>
      intro c xs c' covers enough read
      obtain ⟨found, c₁, first, rest⟩ := bind_eq_ok.mp read
      cases found with
      | none =>
          obtain ⟨_, rfl⟩ := Prod.mk.inj (Except.ok.inj rest)
          exact ⟨c, covers, first⟩
      | some x =>
          have passes := (h.of_ok covers trivial first).2
          have shorter := takes c x c₁ covers first
          obtain ⟨more, c₂, behind, done⟩ := bind_eq_ok.mp rest
          obtain ⟨_, rfl⟩ := Prod.mk.inj (Except.ok.inj done)
          exact ih c₁ more c₂ (covers.passes passes) (by omega) behind

end Parser

end SparqlMetrics
