import SparqlMetrics.Proofs.Grammar.Yields

/-!
# The words that actions consume

`Parser.Consumes p P` says that what the action `p` returns and the word of tokens that it passes over
have the property `P` together; the word is taken off the tokens ahead, and nothing else of the
cursor changes. It says nothing about actions that stop. There is one rule for each way of composing
actions: the words of two actions are put together.
-/
namespace SparqlMetrics

/-- Whether one cursor stands behind a word that is ahead of another one. -/
structure Cursor.Passed (c : Cursor) (w : List Token) (c' : Cursor) : Prop where
  ahead : c.ahead = w ++ c'.ahead
  last : c'.last = c.last
  blankCount : c'.blankCount = c.blankCount

namespace Cursor

theorem Passed.refl (c : Cursor) : c.Passed [] c := ⟨rfl, rfl, rfl⟩

theorem Passed.trans {c c₁ c₂ : Cursor} {u v : List Token} (h : c.Passed u c₁)
    (h' : c₁.Passed v c₂) : c.Passed (u ++ v) c₂ := by
  constructor
  · rw [h.ahead, h'.ahead, List.append_assoc]
  · rw [h'.last, h.last]
  · rw [h'.blankCount, h.blankCount]

/-- A token that is not the last one is passed over as a word. -/
theorem passed_advance {c : Cursor} (last : c.last.lexeme.isTerminal = true)
    (full : c.token.lexeme.isTerminal = false) : c.Passed [c.token] c.advance := by
  obtain ⟨ahead, last', count⟩ := c
  cases ahead with
  | nil =>
      have same : last'.lexeme.isTerminal = false := full
      rw [show last'.lexeme.isTerminal = true from last] at same
      cases same
  | cons t rest => exact ⟨rfl, rfl, rfl⟩

end Cursor

namespace Parser
variable {α β σ : Type} {P : List Token → α → Prop} {Q : List Token → β → Prop}

/-- Whatever an action returns has a property together with the word it passes over. -/
def Consumes (p : Parser α) (P : List Token → α → Prop) : Prop :=
  ∀ c x c', c.last.lexeme.isTerminal = true → p c = .ok (x, c') → ∃ w, c.Passed w c' ∧ P w x

/-- The same at cursors that stand at a given token. -/
def ConsumesAt (t : Token) (p : Parser α) (P : List Token → α → Prop) : Prop :=
  ∀ c x c', c.last.lexeme.isTerminal = true → c.token = t → p c = .ok (x, c') →
    ∃ w, c.Passed w c' ∧ P w x

theorem Consumes.at {p : Parser α} (h : Consumes p P) (t : Token) : ConsumesAt t p P :=
  fun c x c' last _ found => h c x c' last found

theorem Consumes.mono {p : Parser α} {R : List Token → α → Prop} (hp : Consumes p P)
    (h : ∀ w x, P w x → R w x) : Consumes p R := by
  intro c x c' last found
  obtain ⟨w, passed, holds⟩ := hp c x c' last found
  exact ⟨w, passed, h w x holds⟩

theorem consumes_pure {x : α} (h : P [] x) : Consumes (pure x) P := by
  intro c y c' _ found
  obtain ⟨rfl, rfl⟩ := Prod.mk.inj (Except.ok.inj found)
  exact ⟨[], .refl c, h⟩

theorem consumes_fail (cause : Malformed) : Consumes (fail cause) P := by
  intro c x c' _ found
  cases found

theorem Consumes.bind {p : Parser α} {f : α → Parser β} (hp : Consumes p P)
    (hf : ∀ u x, P u x → Consumes (f x) fun v => Q (u ++ v)) : Consumes (p >>= f) Q := by
  intro c y c' last found
  obtain ⟨x, c₁, first, second⟩ := bind_eq_ok.mp found
  obtain ⟨u, passed, holds⟩ := hp c x c₁ last first
  obtain ⟨v, passed', holds'⟩ := hf u x holds c₁ y c' (passed.last ▸ last) second
  exact ⟨u ++ v, passed.trans passed', holds'⟩

theorem Consumes.map {p : Parser α} {f : α → β} (hp : Consumes p P)
    (h : ∀ w x, P w x → Q w (f x)) : Consumes (f <$> p) Q := by
  rw [← bind_pure_comp]
  apply hp.bind
  intro u x holds
  apply consumes_pure
  rw [List.append_nil]
  exact h u x holds

/-- In front of an action, one that looks at the cursor and leaves it in place. -/
theorem consumes_read {g : Cursor → α} {f : α → Parser β}
    (h : ∀ c, ConsumesAt c.token (f (g c)) Q) : Consumes ((fun c => .ok (g c, c)) >>= f) Q :=
  fun c y c' last found => h c c y c' last rfl found

theorem consumes_lexeme {f : Lexeme → Parser β} (h : ∀ t : Token, ConsumesAt t (f t.lexeme) Q) :
    Consumes (lexeme >>= f) Q :=
  consumes_read fun c => h c.token

theorem consumes_isAt {s : Symbol} {f : Bool → Parser β}
    (h : ∀ t : Token, ConsumesAt t (f (t.lexeme == .symbol s)) Q) : Consumes (isAt s >>= f) Q :=
  consumes_read fun c => h c.token

theorem consumes_remaining {f : Nat → Parser β} (h : ∀ n, Consumes (f n) Q) :
    Consumes (remaining >>= f) Q :=
  consumes_read fun c => (h c.ahead.length).at _

theorem ConsumesAt.skip {t : Token} {f : Unit → Parser β} (full : t.lexeme.isTerminal = false)
    (h : Consumes (f ()) fun v => Q (t :: v)) : ConsumesAt t (skip >>= f) Q := by
  intro c y c' last here found
  subst here
  have passed := c.passed_advance last full
  obtain ⟨v, passed', holds⟩ := h c.advance y c' last found
  exact ⟨c.token :: v, passed.trans passed', holds⟩

theorem consumes_mark {s : Symbol} {e : Expectation} {f : Unit → Parser β}
    (h : ∀ t : Token, t.lexeme = .symbol s → Consumes (f ()) fun v => Q (t :: v)) :
    Consumes (mark s e >>= f) Q := by
  have here : Consumes (mark s e) fun w _ => ∃ t : Token, w = [t] ∧ t.lexeme = .symbol s := by
    apply consumes_lexeme
    intro t
    by_cases same : t.lexeme = .symbol s
    · rw [if_pos (beq_iff_eq.mpr same), ← bind_pure skip]
      apply ConsumesAt.skip
      · rw [same]
        rfl
      · exact consumes_pure ⟨t, rfl, same⟩
    · rw [if_neg (by simpa using same)]
      exact (consumes_fail _).at t
  apply here.bind
  rintro _ _ ⟨t, rfl, same⟩
  exact h t same

theorem consumes_tryMark {s : Symbol} {f : Bool → Parser β}
    (found : ∀ t : Token, t.lexeme = .symbol s → Consumes (f true) fun v => Q (t :: v))
    (missing : Consumes (f false) Q) : Consumes (tryMark s >>= f) Q := by
  have here : Consumes (tryMark s) fun w b =>
      (b = true ∧ ∃ t : Token, w = [t] ∧ t.lexeme = .symbol s) ∨ (b = false ∧ w = []) := by
    apply consumes_isAt
    intro t
    by_cases same : t.lexeme = .symbol s
    · rw [if_pos (beq_iff_eq.mpr same)]
      apply ConsumesAt.skip
      · rw [same]
        rfl
      · exact consumes_pure (.inl ⟨rfl, t, rfl, same⟩)
    · rw [if_neg (by simpa using same)]
      exact (consumes_pure (.inr ⟨rfl, rfl⟩)).at t
  apply here.bind
  rintro w b (⟨rfl, t, rfl, same⟩ | ⟨rfl, rfl⟩)
  · exact found t same
  · exact missing

/-- What a round of a loop does: it stays where the loop ends, and keeps an invariant of the word and
the value where the loop goes on. -/
def Continues (I : List Token → σ → Prop) (u : List Token) : List Token → Option σ → Prop
  | w, none => w = []
  | w, some v => I (u ++ w) v

theorem consumes_repeatUpTo {change : σ → Parser (Option σ)} {I : List Token → σ → Prop}
    (h : ∀ u v, I u v → Consumes (change v) (Continues I u)) (bound : Nat) :
    ∀ u v, I u v → Consumes (repeatUpTo change bound v) fun w => I (u ++ w) := by
  induction bound with
  | zero =>
      intro u v holds
      apply consumes_pure
      rwa [List.append_nil]
  | succ bound ih =>
      intro u v holds
      apply (h u v holds).bind
      intro w found step
      cases found with
      | none =>
          apply consumes_pure
          rw [show w = [] from step, List.append_nil, List.append_nil]
          exact holds
      | some v' =>
          apply (ih (u ++ w) v' step).mono
          intro w' y more
          rwa [List.append_assoc] at more

/-- A loop keeps what each of its rounds keeps. -/
theorem consumes_repeatFrom {change : σ → Parser (Option σ)} {I : List Token → σ → Prop}
    (h : ∀ u v, I u v → Consumes (change v) (Continues I u)) {u : List Token} {v : σ}
    (holds : I u v) : Consumes (repeatFrom change v) fun w => I (u ++ w) :=
  consumes_remaining fun _ => consumes_repeatUpTo h _ u v holds

end Parser

end SparqlMetrics
