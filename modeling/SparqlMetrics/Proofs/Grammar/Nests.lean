import SparqlMetrics.Proofs.Token.Places
import SparqlMetrics.Proofs.Declarations

/-!
# How braces nest in what is read

The braces of the tokens that an action passes over pair up, and an error about the missing end of a
group is raised behind a brace that opens one and tokens whose braces pair up. `Parser.Nests p` says
both of an action; `Parser.Closes p` is the same for an action behind an opening brace, which passes
over the closing one. There is one rule for each way of composing actions; a condition on the cursor
says where an action runs.
-/
namespace SparqlMetrics

namespace Lexeme

/-- A lexeme that is neither terminal nor a brace. -/
def isInner : Lexeme → Bool
  | .symbol .lbrace => false
  | .symbol .rbrace => false
  | here => !here.isTerminal

variable {here : Lexeme}

theorem isTerminal_of_isInner (h : here.isInner = true) : here.isTerminal = false := by
  cases here with
  | endOfInput => cases h
  | invalid => cases h
  | _ => rfl

theorem isInner_of_keyword? {k : Keyword} (h : here.keyword? = some k) : here.isInner = true := by
  cases here with
  | keyword => rfl
  | _ => cases h

end Lexeme

namespace Token

/-- The offsets of the braces that are open behind a token, the innermost one first. -/
def nest (opened : List Nat) (t : Token) : List Nat :=
  match t.lexeme with
  | .symbol .lbrace => t.start :: opened
  | .symbol .rbrace => opened.tail
  | _ => opened

/-- Whether the braces of tokens pair up. -/
def Balanced (w : List Token) : Prop := ∀ opened, w.foldl nest opened = opened

/-- Whether tokens close a brace in front of them, and those that they open. -/
def Closing (w : List Token) : Prop := ∀ brace opened, w.foldl nest (brace :: opened) = opened

/-- Whether tokens end behind an opening brace with others whose braces pair up. -/
def LeavesOpen (w : List Token) : Prop :=
  ∃ outer brace inner, w = outer ++ brace :: inner ∧ brace.lexeme = .symbol .lbrace ∧ Balanced inner

def IsMark (s : Symbol) (w : List Token) : Prop := ∃ t : Token, w = [t] ∧ t.lexeme = .symbol s

variable {t : Token} {u w : List Token}

theorem nest_lbrace (h : t.lexeme = .symbol .lbrace) (opened : List Nat) :
    nest opened t = t.start :: opened := by
  rw [nest, h]

theorem nest_rbrace (h : t.lexeme = .symbol .rbrace) (brace : Nat) (opened : List Nat) :
    nest (brace :: opened) t = opened := by
  rw [nest, h]
  rfl

theorem nest_inner (h : t.lexeme.isInner = true) (opened : List Nat) : nest opened t = opened := by
  rw [nest]
  split
  · next brace => rw [brace] at h; cases h
  · next brace => rw [brace] at h; cases h
  · rfl

theorem balanced_nil : Balanced [] := fun _ => rfl

theorem Balanced.append (hu : Balanced u) (hw : Balanced w) : Balanced (u ++ w) := by
  intro opened
  rw [List.foldl_append, hu, hw]

theorem Balanced.closing (hu : Balanced u) (hw : Closing w) : Closing (u ++ w) := by
  intro brace opened
  rw [List.foldl_append, hu, hw]

theorem Closing.append (hu : Closing u) (hw : Balanced w) : Closing (u ++ w) := by
  intro brace opened
  rw [List.foldl_append, hu, hw]

theorem balanced_inner (h : t.lexeme.isInner = true) : Balanced [t] := nest_inner h

theorem LeavesOpen.behind (h : LeavesOpen w) (u : List Token) : LeavesOpen (u ++ w) := by
  obtain ⟨outer, brace, inner, rfl, opens, balanced⟩ := h
  exact ⟨u ++ outer, brace, inner, (List.append_assoc _ _ _).symm, opens, balanced⟩

namespace IsMark

theorem balanced {s : Symbol} (h : IsMark s w) (inner : (Lexeme.symbol s).isInner = true) :
    Balanced w := by
  obtain ⟨t, rfl, same⟩ := h
  exact balanced_inner (same ▸ inner)

theorem closing (h : IsMark .rbrace w) : Closing w := by
  obtain ⟨t, rfl, same⟩ := h
  exact nest_rbrace same

theorem append_closing (h : IsMark .lbrace u) (hw : Closing w) : Balanced (u ++ w) := by
  obtain ⟨t, rfl, same⟩ := h
  intro opened
  rw [List.singleton_append, List.foldl_cons, nest_lbrace same, hw]

/-- Behind an opening brace, tokens whose braces pair up leave that one open. -/
theorem leavesOpen (h : IsMark .lbrace u) (hw : LeavesOpen w ∨ Balanced w) :
    LeavesOpen (u ++ w) := by
  obtain ⟨t, rfl, same⟩ := h
  rcases hw with further | balanced
  · exact further.behind [t]
  · exact ⟨[], t, w, rfl, same, balanced⟩

end IsMark

end Token

open Token

/-- Whether one cursor stands behind tokens that are ahead of another one. -/
structure Cursor.Reaches (c : Cursor) (w : List Token) (d : Cursor) : Prop where
  ahead : c.ahead = w ++ d.ahead
  last : d.last = c.last

namespace Cursor

variable {c d e : Cursor} {u w : List Token}

theorem Reaches.refl (c : Cursor) : c.Reaches [] c := ⟨rfl, rfl⟩

theorem Reaches.trans (h : c.Reaches u d) (h' : d.Reaches w e) : c.Reaches (u ++ w) e :=
  ⟨by rw [h.ahead, h'.ahead, List.append_assoc], h'.last.trans h.last⟩

theorem reaches_advance (last : c.last.lexeme.isTerminal = true)
    (full : c.token.lexeme.isTerminal = false) : c.Reaches [c.token] c.advance :=
  ⟨ahead_eq last full, rfl⟩

end Cursor

/-- Whether an error about the missing end of a group is raised where a cursor stands behind tokens
with a property. -/
def ParseError.Misses (Q : List Token → Prop) (c : Cursor) (e : ParseError) : Prop :=
  e.failure = .malformed (.expected .closeGroup) → ∃ w d, c.Reaches w d ∧ Q w ∧
    e.position = d.token.start ∧ ∀ fault, d.token.lexeme ≠ .invalid fault

namespace Parser

variable {α β σ : Type} {A B : Cursor → Prop} {P P' P'' Q Q' Q'' : List Token → Prop}

/-- Whether an answer leaves tokens behind with one property where it returns, and with another
where the end of a group is missing. -/
def Leaves (P Q : List Token → Prop) (c : Cursor) : Except ParseError (α × Cursor) → Prop
  | .ok (_, c') => ∃ w, c.Reaches w c' ∧ P w
  | .error e => e.Misses Q c

/-- Whether an action does so where a condition on the cursor holds. -/
def LeavesIf (A : Cursor → Prop) (P Q : List Token → Prop) (p : Parser α) : Prop :=
  ∀ c, c.last.lexeme.isTerminal = true → A c → Leaves P Q c (p c)

/-- Whether the braces that an action passes over pair up, where a condition holds. -/
abbrev NestsIf (A : Cursor → Prop) (p : Parser α) : Prop := LeavesIf A Balanced LeavesOpen p

/-- Whether the braces that an action passes over pair up. -/
abbrev Nests (p : Parser α) : Prop := NestsIf (fun _ => True) p

/-- Whether the braces that an action passes over pair up, where a given lexeme stands. -/
abbrev NestsAt (here : Lexeme) (p : Parser α) : Prop := NestsIf (·.token.lexeme = here) p

/-- Whether an action closes the brace in front of it, where a condition holds. -/
abbrev ClosesIf (A : Cursor → Prop) (p : Parser α) : Prop :=
  LeavesIf A Closing (fun w => LeavesOpen w ∨ Balanced w) p

/-- Whether an action closes the brace in front of it. -/
abbrev Closes (p : Parser α) : Prop := ClosesIf (fun _ => True) p

theorem LeavesIf.weaken {p : Parser α} (hp : LeavesIf A P Q p) (h : ∀ c, B c → A c) :
    LeavesIf B P Q p := fun c last holds => hp c last (h c holds)

theorem LeavesIf.at {p : Parser α} (hp : LeavesIf (fun _ => True) P Q p) : LeavesIf A P Q p :=
  hp.weaken fun _ _ => trivial

theorem Nests.at {p : Parser α} (hp : Nests p) : NestsIf A p := LeavesIf.at hp

theorem LeavesIf.mono {p : Parser α} (hp : LeavesIf A P Q p) (h : ∀ w, P w → P' w) :
    LeavesIf A P' Q p := by
  intro c last holds
  have here := hp c last holds
  cases read : p c with
  | error e =>
      rw [read] at here
      exact here
  | ok pair =>
      rw [read] at here
      obtain ⟨w, reaches, passed⟩ := here
      exact ⟨w, reaches, h w passed⟩

/-- Two actions one behind the other put their tokens together. -/
theorem LeavesIf.bindIf {p : Parser α} {f : α → Parser β} {B : α → Cursor → Prop}
    (hp : LeavesIf A P Q p)
    (stops : ∀ c x c', c.last.lexeme.isTerminal = true → A c → p c = .ok (x, c') → B x c')
    (hf : ∀ x, LeavesIf (B x) P' Q' (f x)) (both : ∀ u w, P u → P' w → P'' (u ++ w))
    (first : ∀ w, Q w → Q'' w) (second : ∀ u w, P u → Q' w → Q'' (u ++ w)) :
    LeavesIf A P'' Q'' (p >>= f) := by
  intro c last holds
  have here := hp c last holds
  cases read : p c with
  | error e =>
      rw [TwoRuns.bind_eq_of_error read]
      rw [read] at here
      intro missing
      obtain ⟨w, d, reaches, raised, place⟩ := here missing
      exact ⟨w, d, reaches, first w raised, place⟩
  | ok pair =>
      obtain ⟨x, c'⟩ := pair
      rw [TwoRuns.bind_eq_of_ok read]
      rw [read] at here
      obtain ⟨u, reaches, passed⟩ := here
      have behind := hf x c' (reaches.last ▸ last) (stops c x c' last holds read)
      cases rest : f x c' with
      | error e =>
          rw [rest] at behind
          intro missing
          obtain ⟨w, d, reaches', raised, place⟩ := behind missing
          exact ⟨u ++ w, d, reaches.trans reaches', second u w passed raised, place⟩
      | ok pair =>
          rw [rest] at behind
          obtain ⟨w, reaches', passed'⟩ := behind
          exact ⟨u ++ w, reaches.trans reaches', both u w passed passed'⟩

theorem NestsIf.bindIf {p : Parser α} {f : α → Parser β} {B : α → Cursor → Prop}
    (hp : NestsIf A p)
    (stops : ∀ c x c', c.last.lexeme.isTerminal = true → A c → p c = .ok (x, c') → B x c')
    (hf : ∀ x, NestsIf (B x) (f x)) : NestsIf A (p >>= f) :=
  LeavesIf.bindIf hp stops hf (fun _ _ => .append) (fun _ h => h) fun u _ _ h => h.behind u

theorem NestsIf.bind {p : Parser α} {f : α → Parser β} (hp : NestsIf A p)
    (hf : ∀ x, Nests (f x)) : NestsIf A (p >>= f) :=
  hp.bindIf (B := fun _ _ => True) (fun _ _ _ _ _ _ => trivial) hf

theorem nests_pure {x : α} : NestsIf A (pure x) := fun c _ _ => ⟨[], .refl c, balanced_nil⟩

theorem NestsIf.map {p : Parser α} (hp : NestsIf A p) (f : α → β) : NestsIf A (f <$> p) := by
  rw [← bind_pure_comp]
  exact hp.bind fun _ => nests_pure

/-- Behind tokens whose braces pair up, an action that closes the brace in front of them. -/
theorem NestsIf.closesIf {p : Parser α} {f : α → Parser β} {B : α → Cursor → Prop}
    (hp : NestsIf A p) (stops : ∀ c x c', c.last.lexeme.isTerminal = true → p c = .ok (x, c') →
      B x c') (hf : ∀ x, ClosesIf (B x) (f x)) : ClosesIf A (p >>= f) :=
  LeavesIf.bindIf hp (fun c x c' last _ => stops c x c' last) hf (fun _ _ hu => hu.closing)
    (fun _ h => .inl h) fun u _ hu h => h.imp (·.behind u) hu.append

theorem Nests.closes {p : Parser α} {f : α → Parser β} (hp : Nests p) (hf : ∀ x, Closes (f x)) :
    Closes (p >>= f) :=
  NestsIf.closesIf hp (B := fun _ _ => True) (fun _ _ _ _ _ => trivial) hf

theorem ClosesIf.bind {p : Parser α} {f : α → Parser β} (hp : ClosesIf A p)
    (hf : ∀ x, Nests (f x)) : ClosesIf A (p >>= f) :=
  LeavesIf.bindIf hp (B := fun _ _ => True) (fun _ _ _ _ _ _ => trivial) hf (fun _ _ => .append)
    (fun _ h => h) fun u _ _ h => .inl (h.behind u)

/-! ## Errors -/

theorem leaves_fail {cause : Malformed} (other : cause ≠ .expected .closeGroup) :
    LeavesIf A P Q (fail cause : Parser α) := by
  intro c _ _ missing
  rw [Cursor.error] at missing
  split at missing
  · cases missing
  · exact absurd (ParseFailure.malformed.inj missing) other

theorem leaves_expected {e : Expectation} (other : e ≠ .closeGroup) :
    LeavesIf A P Q (expected e : Parser α) :=
  leaves_fail fun same => other (Malformed.expected.inj same)

/-- Where the end of a group is missing, nothing has been passed over since. -/
theorem leaves_closeGroup (e : Expectation) (h : Q []) :
    LeavesIf A P Q (expected e : Parser α) := by
  intro c _ _ missing
  have place : (c.error (.expected e)).position = c.token.start := by
    rw [Cursor.error]
    split <;> rfl
  refine ⟨[], c, .refl c, h, place, fun fault invalid => ?_⟩
  rw [Cursor.error, invalid] at missing
  cases missing

/-! ## Looking ahead -/

/-- An action that reads something off the cursor and leaves it in place. -/
theorem LeavesIf.read {g : Cursor → α} {f : α → Parser β}
    (hf : ∀ x, LeavesIf (fun c => A c ∧ g c = x) P Q (f x)) :
    LeavesIf A P Q ((fun c => .ok (g c, c) : Parser α) >>= f) := by
  intro c last holds
  rw [TwoRuns.bind_eq_of_ok (show (fun c => .ok (g c, c) : Parser α) c = .ok (g c, c) from rfl)]
  exact hf (g c) c last ⟨holds, rfl⟩

theorem LeavesIf.drop {g : Cursor → α} {f : α → Parser β} (hf : ∀ x, LeavesIf A P Q (f x)) :
    LeavesIf A P Q ((fun c => .ok (g c, c) : Parser α) >>= f) :=
  .read fun x => (hf x).weaken fun _ holds => holds.1

theorem LeavesIf.position {f : Nat → Parser β} (hf : ∀ n, LeavesIf A P Q (f n)) :
    LeavesIf A P Q (position >>= f) := .drop hf

theorem LeavesIf.followingLexeme {f : Lexeme → Parser β} (hf : ∀ l, LeavesIf A P Q (f l)) :
    LeavesIf A P Q (followingLexeme >>= f) := .drop hf

theorem LeavesIf.remaining {f : Nat → Parser β} (hf : ∀ n, LeavesIf A P Q (f n)) :
    LeavesIf A P Q (remaining >>= f) := .drop hf

/-- To look at the lexeme is to know where an action runs. -/
theorem leaves_lexeme {f : Lexeme → Parser β}
    (hf : ∀ here, LeavesIf (·.token.lexeme = here) P Q (f here)) :
    LeavesIf (fun _ => True) P Q (lexeme >>= f) :=
  .read fun here => (hf here).weaken fun _ holds => holds.2

theorem leaves_token {f : Token → Parser β}
    (hf : ∀ t : Token, LeavesIf (·.token.lexeme = t.lexeme) P Q (f t)) :
    LeavesIf (fun _ => True) P Q (token >>= f) :=
  .read fun t => (hf t).weaken fun _ holds => congrArg Token.lexeme holds.2

theorem leaves_isAt {s : Symbol} {f : Bool → Parser β}
    (yes : LeavesIf (·.token.lexeme = .symbol s) P Q (f true)) (no : LeavesIf A P Q (f false)) :
    LeavesIf A P Q (isAt s >>= f) :=
  .read fun found => by
    cases found with
    | true => exact yes.weaken fun _ holds => beq_iff_eq.mp holds.2
    | false => exact no.weaken fun _ holds => holds.1

theorem leaves_isAtKeyword {k : Keyword} {f : Bool → Parser β}
    (yes : LeavesIf (·.token.lexeme.keyword? = some k) P Q (f true))
    (no : LeavesIf A P Q (f false)) : LeavesIf A P Q (isAtKeyword k >>= f) :=
  .read fun found => by
    cases found with
    | true => exact yes.weaken fun _ holds => beq_iff_eq.mp holds.2
    | false => exact no.weaken fun _ holds => holds.1

/-! ## Passing over tokens -/

/-- To pass over a token that is not the last one. -/
theorem leaves_skip (full : ∀ c, A c → c.token.lexeme.isTerminal = false)
    (h : ∀ c, A c → P [c.token]) : LeavesIf A P Q skip :=
  fun c last holds => ⟨[c.token], c.reaches_advance last (full c holds), h c holds⟩

theorem nests_pass : NestsIf (·.token.lexeme.isInner = true) skip :=
  leaves_skip (fun _ => Lexeme.isTerminal_of_isInner) fun _ => balanced_inner

theorem nests_skip {here : Lexeme} (inner : here.isInner = true) : NestsAt here skip :=
  nests_pass.weaken fun _ same => same ▸ inner

theorem nests_skipKeyword {k : Keyword} : NestsIf (·.token.lexeme.keyword? = some k) skip :=
  nests_pass.weaken fun _ => Lexeme.isInner_of_keyword?

theorem leaves_skipMark {s : Symbol} :
    LeavesIf (·.token.lexeme = .symbol s) (IsMark s) Q skip :=
  leaves_skip (fun _ same => same ▸ rfl) fun c same => ⟨c.token, rfl, same⟩

theorem leaves_mark {s : Symbol} {e : Expectation} (h : e ≠ .closeGroup ∨ Q []) :
    LeavesIf A (IsMark s) Q (mark s e) :=
  LeavesIf.at <| leaves_lexeme fun here => by
    split
    · next same => exact leaves_skipMark.weaken fun _ stands => stands.trans (beq_iff_eq.mp same)
    · exact h.elim leaves_expected (leaves_closeGroup e)

theorem nests_mark {s : Symbol} {e : Expectation} (inner : (Lexeme.symbol s).isInner = true)
    (other : e ≠ .closeGroup) : NestsIf A (mark s e) :=
  (leaves_mark (.inl other)).mono fun _ h => h.balanced inner

theorem closes_skip : ClosesIf (·.token.lexeme = .symbol .rbrace) skip :=
  leaves_skipMark.mono fun _ h => h.closing

theorem closes_mark (e : Expectation) : Closes (mark .rbrace e) :=
  (leaves_mark (.inr (.inr balanced_nil))).mono fun _ h => h.closing

/-- Behind an opening brace, an action that closes it. -/
theorem LeavesIf.opens {p : Parser α} {f : α → Parser β}
    (hp : LeavesIf A (IsMark .lbrace) LeavesOpen p) (hf : ∀ x, Closes (f x)) :
    NestsIf A (p >>= f) :=
  LeavesIf.bindIf hp (B := fun _ _ => True) (fun _ _ _ _ _ _ => trivial) hf
    (fun _ _ hu hw => hu.append_closing hw) (fun _ h => h) fun _ _ hu hw => hu.leavesOpen hw

/-- A group between braces. -/
theorem nests_braces {e : Expectation} {f : Unit → Parser β} (other : e ≠ .closeGroup)
    (hf : ∀ x, Closes (f x)) : NestsIf A (mark .lbrace e >>= f) :=
  (leaves_mark (.inl other)).opens hf

theorem nests_keyword {k : Keyword} {e : Expectation} (other : e ≠ .closeGroup) :
    NestsIf A (keyword k e) :=
  leaves_isAtKeyword nests_skipKeyword (leaves_expected other)

theorem nests_tryKeyword {k : Keyword} : NestsIf A (tryKeyword k) :=
  leaves_isAtKeyword (nests_skipKeyword.bind fun _ => nests_pure) nests_pure

theorem nests_tryMark {s : Symbol} (inner : (Lexeme.symbol s).isInner = true) :
    Nests (tryMark s) :=
  leaves_isAt ((nests_skip inner).bind fun _ => nests_pure) nests_pure

theorem nests_variableName {e : Expectation} (other : e ≠ .closeGroup) : Nests (variableName e) :=
  leaves_lexeme fun here => by
    split
    · exact (nests_skip rfl).bind fun _ => nests_pure
    · exact leaves_expected other

/-! ## Loops -/

theorem nests_manyUpTo {item : Parser (Option α)} (h : Nests item) (bound : Nat) :
    Nests (manyUpTo item bound) := by
  induction bound with
  | zero => exact nests_pure
  | succ bound ih =>
      refine h.bind fun found => ?_
      cases found with
      | none => exact nests_pure
      | some x => exact ih.bind fun _ => nests_pure

theorem nests_many {item : Parser (Option α)} (h : Nests item) : Nests (many item) :=
  .remaining fun _ => nests_manyUpTo h _

theorem nests_repeatUpTo {change : σ → Parser (Option σ)} (h : ∀ v, Nests (change v))
    (bound : Nat) : ∀ v, Nests (repeatUpTo change bound v) := by
  induction bound with
  | zero => exact fun _ => nests_pure
  | succ bound ih =>
      intro v
      refine (h v).bind fun found => ?_
      cases found with
      | none => exact nests_pure
      | some w => exact ih w

theorem nests_repeatFrom {change : σ → Parser (Option σ)} (h : ∀ v, Nests (change v)) {v : σ} :
    Nests (repeatFrom change v) :=
  .remaining fun _ => nests_repeatUpTo h _ v

end Parser

end SparqlMetrics
