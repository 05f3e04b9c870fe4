import SparqlMetrics.Proofs.Grammar.Tracks

/-!
# Reading up to a closing brace

A reader that gets to the end of its tokens reads the same in tokens that go on with a closing brace:
no reader of a query goes on at a brace where it would stop at the end. `Cursor.InBraces c d` says
that `c` stands among braced tokens where `d` stands among the bare ones, and `Parser.InBraces` that
an action among the first follows one among the second that returns. The loops of the two runs have
different bounds, so the relation also counts the tokens that are taken: a loop of items that take one
each is over before either bound.
-/
namespace SparqlMetrics

/-- A cursor among its tokens and a closing brace behind them. -/
def Cursor.braced (d : Cursor) : Cursor :=
  { d with ahead := d.ahead ++ [⟨.symbol .rbrace, d.last.start, d.last.stop⟩] }

/-- Whether a cursor stands among braced tokens where another one stands among the bare ones. Where
no token is ahead of the second, the first may have passed over the brace. -/
structure Cursor.InBraces (c d : Cursor) : Prop where
  ended : d.last.lexeme = .endOfInput
  place : c = d.braced ∨ c = d ∧ d.ahead = []

/-- Whether a cursor stands in front of its end. -/
def Cursor.Full (d : Cursor) : Prop := d.token.lexeme ≠ .endOfInput

/-- A lexeme, and the one among the bare tokens: at their end, the first may be a closing brace. -/
inductive Lexeme.InBraces : Lexeme → Lexeme → Prop
  | same {here : Lexeme} : here ≠ .endOfInput → InBraces here here
  | last {here : Lexeme} : here = .symbol .rbrace ∨ here = .endOfInput → InBraces here .endOfInput

/-- A question about a lexeme that a closing brace answers as the end does. -/
theorem Lexeme.InBraces.answer {κ : Type} {f : Lexeme → κ} {here there : Lexeme}
    (h : here.InBraces there) (last : f (.symbol .rbrace) = f .endOfInput) : f here = f there := by
  cases h with
  | same => rfl
  | last at_ =>
      rcases at_ with rfl | rfl
      · exact last
      · rfl

namespace Cursor.InBraces

variable {c d : Cursor}

/-- Two cursors stand at one token or at the two ends. -/
theorem token (h : c.InBraces d) : c.token = d.token ∧ d.Full ∨
    c.token.lexeme.InBraces .endOfInput ∧ d.token.lexeme = .endOfInput ∧
      c.token.start = d.token.start := by
  obtain ⟨ahead, last, count⟩ := d
  have ended : last.lexeme = .endOfInput := h.ended
  rcases h.place with rfl | ⟨rfl, noTokens⟩
  · cases ahead with
    | nil => exact .inr ⟨.last (.inl rfl), ended, rfl⟩
    | cons t rest =>
        by_cases full : t.lexeme = .endOfInput
        · exact .inr ⟨.last (.inr full), full, rfl⟩
        · exact .inl ⟨rfl, full⟩
  · obtain rfl : ahead = [] := noTokens
    exact .inr ⟨.last (.inr ended), ended, rfl⟩

theorem lexeme (h : c.InBraces d) : c.token.lexeme.InBraces d.token.lexeme := by
  obtain ⟨same, full⟩ | ⟨alike, last, _⟩ := h.token
  · rw [same]
    exact .same full
  · rw [last]
    exact alike

theorem start (h : c.InBraces d) : c.token.start = d.token.start := by
  obtain ⟨same, _⟩ | ⟨_, _, start⟩ := h.token
  · rw [same]
  · exact start

theorem advance (h : c.InBraces d) : c.advance.InBraces d.advance := by
  obtain ⟨ahead, last, count⟩ := d
  refine ⟨h.ended, ?_⟩
  rcases h.place with rfl | ⟨rfl, noTokens⟩
  · cases ahead with
    | nil => exact .inr ⟨rfl, rfl⟩
    | cons t rest => exact .inl rfl
  · exact .inr ⟨rfl, congrArg List.tail noTokens⟩

theorem length_le (h : c.InBraces d) : d.ahead.length ≤ c.ahead.length := by
  rcases h.place with rfl | ⟨rfl, _⟩
  · simp [braced]
  · exact Nat.le_refl _

/-- In front of the end a token is taken. -/
theorem length_advance (h : c.InBraces d) (full : d.Full) :
    d.advance.ahead.length + 1 ≤ d.ahead.length := by
  obtain ⟨ahead, last, count⟩ := d
  cases ahead with
  | nil => exact absurd h.ended full
  | cons t rest => exact Nat.le_refl _

end Cursor.InBraces

namespace Parser

variable {α β σ : Type} {A : Cursor → Prop} {k : α → Nat} {m : β → Nat}

/-- Whether an action among braced tokens returns what another one returns among the bare ones, where
a condition holds; the tokens taken are counted from below. -/
def InBracesIf (A : Cursor → Prop) (least : α → Nat) (p q : Parser α) : Prop :=
  ∀ c d, c.InBraces d → A d → ∀ x d', q d = .ok (x, d') →
    ∃ c', p c = .ok (x, c') ∧ c'.InBraces d' ∧ d'.ahead.length + least x ≤ d.ahead.length

/-- The same wherever two cursors stand. -/
abbrev InBraces (least : α → Nat) (p q : Parser α) : Prop := InBracesIf (fun _ => True) least p q

/-- The same in front of the end. -/
abbrev InBracesFull (least : α → Nat) (p q : Parser α) : Prop := InBracesIf Cursor.Full least p q

/-- An item of a loop takes a token, and nothing may take none. -/
def perItem (found : Option α) : Nat := found.isSome.toNat

theorem InBraces.at {p q : Parser α} (h : InBraces k p q) : InBracesIf A k p q :=
  fun c d place _ => h c d place trivial

theorem InBracesIf.mono {k' : α → Nat} {p q : Parser α} (h : InBracesIf A k p q)
    (le : ∀ x, k' x ≤ k x) : InBracesIf A k' p q := by
  intro c d place holds x d' read
  obtain ⟨c', read', place', taken⟩ := h c d place holds x d' read
  exact ⟨c', read', place', Nat.le_trans (Nat.add_le_add_left (le x) _) taken⟩

/-- An action whose tokens need not be counted. -/
theorem InBracesIf.free {p q : Parser α} (h : InBracesIf A k p q) :
    InBracesIf A (fun _ => 0) p q := h.mono fun _ => Nat.zero_le _

theorem inBraces_pure {x : α} (noCost : k x = 0) : InBracesIf A k (pure x) (pure x) := by
  intro c d place _ y d' read
  obtain ⟨rfl, rfl⟩ := Prod.mk.inj (Except.ok.inj read)
  exact ⟨c, rfl, place, Nat.le_of_eq (by rw [noCost, Nat.add_zero])⟩

/-- Two actions one behind the other put their tokens together; the second may ask where the first
one stops. -/
theorem InBracesIf.bindIf {B : α → Cursor → Prop} {p q : Parser α} {f g : α → Parser β}
    (hp : InBracesIf A k p q)
    (left : ∀ d x d₁, A d → q d = .ok (x, d₁) → d₁.ahead.length + k x ≤ d.ahead.length → B x d₁)
    (hf : ∀ x, InBracesIf (B x) (fun y => m y - k x) (f x) (g x)) :
    InBracesIf A m (p >>= f) (q >>= g) := by
  intro c d place holds y d' read
  obtain ⟨x, d₁, first, rest⟩ := bind_eq_ok.mp read
  obtain ⟨c₁, first', place₁, taken₁⟩ := hp c d place holds x d₁ first
  obtain ⟨c', rest', place', taken⟩ := hf x c₁ d₁ place₁ (left d x d₁ holds first taken₁) y d' rest
  have both : d'.ahead.length + (m y - k x) ≤ d₁.ahead.length := taken
  rw [TwoRuns.bind_eq_of_ok first']
  exact ⟨c', rest', place', by omega⟩

theorem InBracesIf.bind {p q : Parser α} {f g : α → Parser β} (hp : InBracesIf A k p q)
    (hf : ∀ x, InBraces (fun y => m y - k x) (f x) (g x)) :
    InBracesIf A m (p >>= f) (q >>= g) :=
  hp.bindIf (B := fun _ _ => True) (fun _ _ _ _ _ _ => trivial) hf

theorem InBracesIf.map {f : α → β} {n : Nat} {p q : Parser α}
    (h : InBracesIf A (fun _ => n) p q) : InBracesIf A (fun _ => n) (f <$> p) (f <$> q) := by
  rw [← bind_pure_comp, ← bind_pure_comp]
  exact h.bind fun _ => inBraces_pure (Nat.sub_self n)

/-- An action that takes a token, as an item of a loop. -/
theorem InBracesIf.item {p q : Parser α} (h : InBracesIf A (fun _ => 1) p q) :
    InBracesIf A perItem (some <$> p) (some <$> q) := by
  rw [← bind_pure_comp, ← bind_pure_comp]
  exact h.bind fun _ => inBraces_pure rfl

/-- The same behind a token that the item has taken already. -/
theorem InBracesIf.itemBehind {p q : Parser α} (h : InBracesIf A (fun _ => 0) p q) :
    InBracesIf A (fun found => perItem found - 1) (some <$> p) (some <$> q) := by
  rw [← bind_pure_comp, ← bind_pure_comp]
  exact h.bind fun _ => inBraces_pure rfl

/-- Where one action fails, the other need not follow. -/
theorem inBraces_fail (p : Parser α) (cause : Malformed) : InBracesIf A k p (fail cause) := by
  intro c d _ _ x d' read
  cases read

theorem inBraces_expected (p : Parser α) (e : Expectation) : InBracesIf A k p (expected e) :=
  inBraces_fail p _

/-! ## Looking ahead -/

theorem inBraces_position {f g : Nat → Parser β} (h : ∀ start, InBracesIf A m (f start) (g start)) :
    InBracesIf A m (position >>= f) (position >>= g) := by
  intro c d place holds y d' read
  have here : (position >>= f) c = f d.token.start c := congrArg (fun n => f n c) place.start
  rw [here]
  exact h d.token.start c d place holds y d' read

/-- To look at the lexeme is to know where an action runs. -/
theorem inBraces_lexeme {f g : Lexeme → Parser β}
    (full : ∀ here, InBracesFull m (f here) (g here))
    (last : ∀ here, here.InBraces .endOfInput →
      InBracesIf (·.token.lexeme = .endOfInput) m (f here) (g .endOfInput)) :
    InBraces m (lexeme >>= f) (lexeme >>= g) := by
  intro c d place _ y d' read
  show ∃ c', f c.token.lexeme c = _ ∧ _
  obtain ⟨same, full'⟩ | ⟨alike, there, _⟩ := place.token
  · rw [same]
    exact full _ c d place full' y d' read
  · have read' : g .endOfInput d = .ok (y, d') := there ▸ read
    exact last _ alike c d place there y d' read'

/-- A reader that fails at the end. -/
theorem inBraces_opening {f g : Lexeme → Parser β} (full : ∀ here, InBracesFull m (f here) (g here))
    (last : ∀ p, InBracesIf (·.token.lexeme = .endOfInput) m p (g .endOfInput)) :
    InBraces m (lexeme >>= f) (lexeme >>= g) :=
  inBraces_lexeme full fun _ _ => last _

/-- A reader that does at the end what it does at a closing brace. -/
theorem inBraces_stopping {f g : Lexeme → Parser β}
    (full : ∀ here, InBracesFull m (f here) (g here))
    (same : f (.symbol .rbrace) = f .endOfInput)
    (last : InBraces m (f .endOfInput) (g .endOfInput)) :
    InBraces m (lexeme >>= f) (lexeme >>= g) :=
  inBraces_lexeme full fun _ alike => alike.answer same ▸ last.at

/-- To look at a token is to know where an action runs. -/
theorem inBraces_token {f g : Token → Parser β} (full : ∀ t : Token, InBracesFull m (f t) (g t))
    (last : ∀ (t : Token) start stop, t.lexeme.InBraces .endOfInput →
      InBracesIf (·.token.lexeme = .endOfInput) m (f t) (g ⟨.endOfInput, start, stop⟩)) :
    InBraces m (token >>= f) (token >>= g) := by
  intro c d place _ y d' read
  show ∃ c', f c.token c = _ ∧ _
  obtain ⟨same, full'⟩ | ⟨alike, there, _⟩ := place.token
  · rw [same]
    exact full _ c d place full' y d' read
  · have read' : g ⟨.endOfInput, d.token.start, d.token.stop⟩ d = .ok (y, d') := there ▸ read
    exact last _ _ _ alike c d place there y d' read'

/-- A look at the next lexeme that does not tell a closing brace from the end. -/
theorem inBraces_following {f g : Lexeme → Parser β}
    (same : f (.symbol .rbrace) = f .endOfInput) (h : ∀ next, InBracesIf A m (f next) (g next)) :
    InBracesIf A m (followingLexeme >>= f) (followingLexeme >>= g) := by
  intro c d place holds y d' read
  have next : f c.following.lexeme = f d.following.lexeme := place.advance.lexeme.answer same
  show ∃ c', f c.following.lexeme c = _ ∧ _
  rw [next]
  exact h _ c d place holds y d' read

theorem inBraces_remaining {f g : Nat → Parser β}
    (h : ∀ n n', n ≤ n' → InBracesIf (fun d => A d ∧ d.ahead.length = n) m (f n') (g n)) :
    InBracesIf A m (remaining >>= f) (remaining >>= g) :=
  fun c d place holds => h d.ahead.length c.ahead.length place.length_le c d place ⟨holds, rfl⟩

theorem inBraces_isAt {s : Symbol} {f g : Bool → Parser β} (other : s ≠ .rbrace)
    (yes : InBracesFull m (f true) (g true)) (no : InBraces m (f false) (g false)) :
    InBraces m (isAt s >>= f) (isAt s >>= g) := by
  refine inBraces_lexeme (f := fun here => f (here == .symbol s))
    (g := fun here => g (here == .symbol s))
    (fun here => ?_) fun here alike => ?_
  · cases here == .symbol s with
    | true => exact yes
    | false => exact no.at
  · have differs : (Lexeme.symbol .rbrace == .symbol s) = false := by
      simpa using other.symm
    rw [alike.answer (f := (· == .symbol s)) differs]
    exact no.at

theorem inBraces_isAtKeyword {k : Keyword} {f g : Bool → Parser β}
    (yes : InBracesFull m (f true) (g true)) (no : InBraces m (f false) (g false)) :
    InBraces m (isAtKeyword k >>= f) (isAtKeyword k >>= g) := by
  refine inBraces_stopping (f := fun here => f (here.keyword? == some k))
    (g := fun here => g (here.keyword? == some k)) (fun here => ?_) rfl no
  cases here.keyword? == some k with
  | true => exact yes
  | false => exact no.at

/-! ## Passing over tokens -/

theorem inBraces_pass : InBracesFull (fun _ => 1) skip skip := by
  intro c d place full x d' read
  obtain ⟨rfl, rfl⟩ := Prod.mk.inj (Except.ok.inj read)
  exact ⟨c.advance, rfl, place.advance, place.length_advance full⟩

theorem inBraces_skip : InBraces (fun _ => 0) skip skip := by
  intro c d place _ x d' read
  obtain ⟨rfl, rfl⟩ := Prod.mk.inj (Except.ok.inj read)
  have shorter : d.advance.ahead.length ≤ d.ahead.length := by simp [Cursor.advance]
  exact ⟨c.advance, rfl, place.advance, shorter⟩

theorem inBraces_mark (s : Symbol) (e : Expectation) :
    InBraces (fun _ => 1) (mark s e) (mark s e) := by
  refine inBraces_opening (fun here => ?_) fun p => inBraces_expected p e
  split
  · exact inBraces_pass
  · exact inBraces_expected _ e

theorem inBraces_keyword (k : Keyword) (e : Expectation) :
    InBraces (fun _ => 1) (keyword k e) (keyword k e) :=
  inBraces_isAtKeyword inBraces_pass (inBraces_expected _ e)

theorem inBraces_tryKeyword (k : Keyword) :
    InBraces Bool.toNat (tryKeyword k) (tryKeyword k) :=
  inBraces_isAtKeyword (inBraces_pass.bind fun _ => inBraces_pure rfl) (inBraces_pure rfl)

theorem inBraces_tryMark {s : Symbol} (other : s ≠ .rbrace) :
    InBraces Bool.toNat (tryMark s) (tryMark s) :=
  inBraces_isAt other (inBraces_pass.bind fun _ => inBraces_pure rfl) (inBraces_pure rfl)

theorem inBraces_variableName (e : Expectation) :
    InBraces (fun _ => 1) (variableName e) (variableName e) := by
  refine inBraces_opening (fun here => ?_) fun p => inBraces_expected p e
  split
  · exact inBraces_pass.bind fun _ => inBraces_pure rfl
  · exact inBraces_expected _ e

/-- Two choices by one condition. -/
theorem inBraces_ite {b : Bool} {p p' q q' : Parser α} (yes : b = true → InBracesIf A k p q)
    (no : b = false → InBracesIf A k p' q') :
    InBracesIf A k (if b then p else p') (if b then q else q') := by
  cases b with
  | true => exact yes rfl
  | false => exact no rfl

/-! ## Loops -/

/-- An item behind the token that opens it. -/
theorem inBraces_opened {p q : Parser α} (h : InBraces (fun _ => 0) p q) (found : Bool) :
    InBraces (fun x => perItem x - found.toNat) (if found then some <$> p else pure none)
      (if found then some <$> q else pure none) := by
  cases found with
  | true => exact h.itemBehind
  | false => exact inBraces_pure rfl

theorem inBraces_keywordItem {s : Keyword} {p q : Parser α} (h : InBraces (fun _ => 0) p q) :
    InBraces perItem (do if ← tryKeyword s then some <$> p else pure none)
      (do if ← tryKeyword s then some <$> q else pure none) :=
  (inBraces_tryKeyword s).bind (inBraces_opened h)

theorem inBraces_markItem {s : Symbol} {p q : Parser α} (other : s ≠ .rbrace)
    (h : InBraces (fun _ => 0) p q) :
    InBraces perItem (do if ← tryMark s then some <$> p else pure none)
      (do if ← tryMark s then some <$> q else pure none) :=
  (inBraces_tryMark other).bind (inBraces_opened h)

/-- Whether a loop that goes on has more rounds left than tokens. -/
def Enough (bound : Nat) (found : Option α) (d : Cursor) : Prop :=
  found.isSome = true → d.ahead.length < bound

theorem enough_of_perItem {bound : Nat} (d : Cursor) (found : Option α) (d₁ : Cursor)
    (less : d.ahead.length < bound + 1)
    (taken : d₁.ahead.length + perItem found ≤ d.ahead.length) : Enough bound found d₁ := by
  intro taking
  rw [perItem, taking] at taken
  simp only [Bool.toNat_true] at taken
  omega

/-- Where there are more rounds than tokens, the number of rounds does not matter. -/
theorem inBraces_manyUpTo {item item' : Parser (Option α)} (h : InBraces perItem item item')
    {bound bound' : Nat} (le : bound ≤ bound') :
    InBracesIf (·.ahead.length < bound) (fun _ => 0) (manyUpTo item bound')
      (manyUpTo item' bound) := by
  induction bound generalizing bound' with
  | zero => exact fun c d _ less => absurd less (Nat.not_lt_zero _)
  | succ bound ih =>
      obtain ⟨bound', rfl⟩ : ∃ n, bound' = n + 1 := ⟨bound' - 1, by omega⟩
      refine h.at.bindIf (B := Enough bound)
        (fun d found d₁ less _ => enough_of_perItem d found d₁ less) fun found => ?_
      cases found with
      | none => exact inBraces_pure (Nat.zero_sub _)
      | some x =>
          have more := (ih (Nat.le_of_succ_le_succ le)).bind (m := fun _ => 0)
            fun (xs : List α) => inBraces_pure (x := x :: xs) rfl
          exact fun c d place enough => by simpa using more c d place (enough rfl)

theorem InBraces.many {item item' : Parser (Option α)} (h : InBraces perItem item item') :
    InBraces (fun _ => 0) (many item) (many item') :=
  inBraces_remaining fun _ _ le c d place holds =>
    inBraces_manyUpTo h (Nat.succ_le_succ le) c d place (holds.2 ▸ Nat.lt_succ_self _)

theorem inBraces_repeatUpTo {change change' : σ → Parser (Option σ)}
    (h : ∀ v, InBraces perItem (change v) (change' v)) {bound bound' : Nat} (le : bound ≤ bound')
    (v : σ) : InBracesIf (·.ahead.length < bound) (fun _ => 0) (repeatUpTo change bound' v)
      (repeatUpTo change' bound v) := by
  induction bound generalizing bound' v with
  | zero => exact fun c d _ less => absurd less (Nat.not_lt_zero _)
  | succ bound ih =>
      obtain ⟨bound', rfl⟩ : ∃ n, bound' = n + 1 := ⟨bound' - 1, by omega⟩
      refine (h v).at.bindIf (B := Enough bound)
        (fun d found d₁ less _ => enough_of_perItem d found d₁ less) fun found => ?_
      cases found with
      | none => exact inBraces_pure (Nat.zero_sub _)
      | some w =>
          have more := ih (Nat.le_of_succ_le_succ le) w
          exact fun c d place enough => by simpa using more c d place (enough rfl)

theorem inBraces_repeatFrom {change change' : σ → Parser (Option σ)}
    (h : ∀ v, InBraces perItem (change v) (change' v)) (v : σ) :
    InBraces (fun _ => 0) (repeatFrom change v) (repeatFrom change' v) :=
  inBraces_remaining fun _ _ le c d place holds =>
    inBraces_repeatUpTo h (Nat.succ_le_succ le) v c d place (holds.2 ▸ Nat.lt_succ_self _)

end Parser

end SparqlMetrics
