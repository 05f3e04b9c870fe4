import SparqlMetrics.Grammar.Cursor
import SparqlMetrics.Proofs.Token.Spelling

/-!
# What actions of the grammar yield

`Parser.Yields p P` says that whatever the action `p` returns has the property `P`, provided the
tokens ahead of it are spelled as the scanner spells them. It says nothing about actions that stop.
There is one rule for each way of composing actions; a loop keeps what each of its rounds keeps.
-/
namespace SparqlMetrics

/-- Whether the tokens ahead of a cursor are spelled by the rules, and only the last one ends the
stream. -/
def Cursor.Spelled (c : Cursor) : Prop :=
  (∀ t ∈ c.ahead, t.lexeme.Spelled ∧ t.lexeme.isTerminal = false) ∧ c.last.lexeme.Spelled

namespace Cursor

theorem spelled_ofStream (s : Text) : (ofStream (TokenStream.ofText s)).Spelled :=
  ⟨fun t ht => ⟨TokenStream.spelled_ofText s t (List.mem_append_left _ ht),
      TokenStream.full_ofScanner _ t ht⟩,
    TokenStream.spelled_ofText s _ (List.mem_append_right _ List.mem_cons_self)⟩

theorem Spelled.advance {c : Cursor} (h : c.Spelled) : c.advance.Spelled :=
  ⟨fun t ht => h.1 t (List.mem_of_mem_tail ht), h.2⟩

theorem Spelled.token {c : Cursor} (h : c.Spelled) : c.token.lexeme.Spelled := by
  cases ahead : c.ahead with
  | nil => simpa [Cursor.token, ahead] using h.2
  | cons t rest =>
      simpa [Cursor.token, ahead] using (h.1 t (ahead ▸ List.mem_cons_self)).1

theorem Spelled.following {c : Cursor} (h : c.Spelled) : c.following.lexeme.Spelled :=
  h.advance.token

end Cursor

namespace Parser
variable {α β σ : Type} {P : α → Prop} {Q : β → Prop}

theorem bind_eq_ok {p : Parser α} {f : α → Parser β} {c c' : Cursor} {y : β} :
    (p >>= f) c = .ok (y, c') ↔ ∃ x c₁, p c = .ok (x, c₁) ∧ f x c₁ = .ok (y, c') := by
  show (p c >>= fun r => f r.1 r.2) = _ ↔ _
  cases p c with
  | error e => simp [bind, Except.bind]
  | ok r =>
      constructor
      · exact fun h => ⟨r.1, r.2, rfl, h⟩
      · rintro ⟨x, c₁, same, h⟩
        rw [Except.ok.inj same]
        exact h

theorem pure_apply (x : α) (c : Cursor) : (pure x : Parser α) c = .ok (x, c) := rfl

/-- Whatever an action returns has a property. -/
def Yields (p : Parser α) (P : α → Prop) : Prop :=
  ∀ c x c', c.Spelled → p c = .ok (x, c') → P x ∧ c'.Spelled

theorem yields_pure {x : α} (h : P x) : Yields (pure x) P := by
  intro c y c' hc hy
  obtain ⟨rfl, rfl⟩ := Prod.mk.inj (Except.ok.inj hy)
  exact ⟨h, hc⟩

theorem Yields.bind {p : Parser α} {f : α → Parser β} (hp : Yields p P)
    (hf : ∀ x, P x → Yields (f x) Q) : Yields (p >>= f) Q := by
  intro c y c' hc hy
  obtain ⟨x, c₁, hx, hrest⟩ := bind_eq_ok.mp hy
  have first := hp c x c₁ hc hx
  exact hf x first.1 c₁ y c' first.2 hrest

theorem Yields.map {p : Parser α} {f : α → β} (hp : Yields p P) (hf : ∀ x, P x → Q (f x)) :
    Yields (f <$> p) Q := by
  rw [← bind_pure_comp]
  exact hp.bind fun x hx => yields_pure (hf x hx)

theorem Yields.mono {p : Parser α} {R : α → Prop} (hp : Yields p P) (h : ∀ x, P x → R x) :
    Yields p R :=
  fun c x c' hc hx => (hp c x c' hc hx).imp_left (h x)

theorem yields_fail (cause : Malformed) : Yields (fail cause) P := by
  intro c x c' _ h
  cases h

theorem yields_expected (e : Expectation) : Yields (expected e) P := yields_fail _

theorem yields_throw (e : ParseError) : Yields (throw e) P := by
  intro c x c' _ h
  cases h

/-- An action that reads something off the cursor and leaves it in place. -/
theorem yields_read {f : Cursor → α} (h : ∀ c, c.Spelled → P (f c)) :
    Yields (fun c => .ok (f c, c)) P := by
  intro c x c' hc hx
  obtain ⟨rfl, rfl⟩ : f c = x ∧ c = c' := by simpa using hx
  exact ⟨h c hc, hc⟩

theorem yields_token : Yields token (·.lexeme.Spelled) := yields_read fun _ hc => hc.token

theorem yields_lexeme : Yields lexeme (·.Spelled) := yields_read fun _ hc => hc.token

theorem yields_followingLexeme : Yields followingLexeme (·.Spelled) :=
  yields_read fun _ hc => hc.following

theorem yields_position : Yields position fun _ => True := yields_read fun _ _ => trivial

theorem yields_remaining : Yields remaining fun _ => True := yields_read fun _ _ => trivial

theorem yields_isAt (s : Symbol) : Yields (isAt s) fun _ => True := yields_read fun _ _ => trivial

theorem yields_isAtKeyword (k : Keyword) : Yields (isAtKeyword k) fun _ => True :=
  yields_read fun _ _ => trivial

theorem yields_skip : Yields skip fun _ => True := by
  intro c x c' hc hx
  obtain rfl : c.advance = c' := by simpa [skip] using hx
  exact ⟨trivial, hc.advance⟩

theorem yields_mark (s : Symbol) (e : Expectation) : Yields (mark s e) fun _ => True :=
  yields_lexeme.bind fun here _ => by
    split
    · exact yields_skip
    · exact yields_expected e

theorem yields_keyword (k : Keyword) (e : Expectation) : Yields (keyword k e) fun _ => True :=
  (yields_isAtKeyword k).bind fun here _ => by
    split
    · exact yields_skip
    · exact yields_expected e

theorem yields_tryKeyword (k : Keyword) : Yields (tryKeyword k) fun _ => True :=
  (yields_isAtKeyword k).bind fun here _ => by
    split
    · exact yields_skip.bind fun _ _ => yields_pure trivial
    · exact yields_pure trivial

theorem yields_tryMark (s : Symbol) : Yields (tryMark s) fun _ => True :=
  (yields_isAt s).bind fun here _ => by
    split
    · exact yields_skip.bind fun _ _ => yields_pure trivial
    · exact yields_pure trivial

theorem yields_variableName (e : Expectation) : Yields (variableName e) IsVariableName :=
  yields_lexeme.bind fun here spelled => by
    split
    · exact yields_skip.bind fun _ _ => yields_pure spelled
    · exact yields_expected e

/-- Whatever an action returns where a given lexeme stands has a property. -/
def YieldsAt (here : Lexeme) (p : Parser α) (P : α → Prop) : Prop :=
  ∀ c x c', c.Spelled → c.token.lexeme = here → p c = .ok (x, c') → P x ∧ c'.Spelled

theorem Yields.at {p : Parser α} (hp : Yields p P) (here : Lexeme) : YieldsAt here p P :=
  fun c x c' hc _ hx => hp c x c' hc hx

/-- An action that only reads leaves the lexeme where it stands. -/
theorem YieldsAt.bind_read {here : Lexeme} {g : Cursor → α} {f : α → Parser β}
    (hf : ∀ x, (∃ c : Cursor, c.Spelled ∧ c.token.lexeme = here ∧ g c = x) →
      YieldsAt here (f x) Q) :
    YieldsAt here ((fun c => .ok (g c, c) : Parser α) >>= f) Q := by
  intro c y c' hc hhere hy
  obtain ⟨x, c₁, hx, hrest⟩ := bind_eq_ok.mp hy
  obtain ⟨rfl, rfl⟩ : g c = x ∧ c = c₁ := by simpa using hx
  exact hf _ ⟨c, hc, hhere, rfl⟩ c y c' hc hhere hrest

/-- To look at the lexeme first is to know where an action runs. -/
theorem yields_lexeme_bind {f : Lexeme → Parser β}
    (hf : ∀ here, here.Spelled → YieldsAt here (f here) Q) : Yields (lexeme >>= f) Q := by
  intro c y c' hc hy
  obtain ⟨x, c₁, hx, hrest⟩ := bind_eq_ok.mp hy
  obtain ⟨rfl, rfl⟩ : c.token.lexeme = x ∧ c = c₁ := by simpa [lexeme] using hx
  exact hf _ hc.token c y c' hc rfl hrest

theorem YieldsAt.bind_lexeme {here : Lexeme} {f : Lexeme → Parser β}
    (hf : here.Spelled → YieldsAt here (f here) Q) : YieldsAt here (lexeme >>= f) Q :=
  .bind_read fun x ⟨_, hc, hhere, same⟩ => by
    obtain rfl : here = x := hhere.symm.trans same
    exact hf (hhere ▸ hc.token)

theorem YieldsAt.bind_token {here : Lexeme} {f : Token → Parser β}
    (hf : ∀ t : Token, t.lexeme = here → here.Spelled → YieldsAt here (f t) Q) :
    YieldsAt here (token >>= f) Q :=
  .bind_read fun x ⟨_, hc, hhere, same⟩ =>
    hf x (same ▸ hhere) (hhere ▸ hc.token)

theorem YieldsAt.bind_position {here : Lexeme} {f : Nat → Parser β}
    (hf : ∀ n, YieldsAt here (f n) Q) : YieldsAt here (position >>= f) Q :=
  .bind_read fun x _ => hf x

/-- A property of the value that an optional result holds. -/
def IfSome (P : α → Prop) (found : Option α) : Prop := ∀ x, found = some x → P x

theorem ifSome_none : IfSome P none := by simp [IfSome]

theorem ifSome_some {x : α} (h : P x) : IfSome P (some x) := by simpa [IfSome] using h

theorem yields_none : Yields (pure none) (IfSome P) := yields_pure ifSome_none

theorem Yields.some {p : Parser α} (hp : Yields p P) : Yields (some <$> p) (IfSome P) :=
  hp.map fun _ => ifSome_some

theorem Yields.manyUpTo {item : Parser (Option α)} (h : Yields item (IfSome P)) (bound : Nat) :
    Yields (manyUpTo item bound) (∀ x ∈ ·, P x) := by
  induction bound with
  | zero => exact yields_pure (by simp)
  | succ bound ih =>
      refine h.bind fun found hfound => ?_
      cases found with
      | none => exact yields_pure (by simp)
      | some x =>
          exact ih.bind fun more hmore =>
            yields_pure (List.forall_mem_cons.mpr ⟨hfound x rfl, hmore⟩)

theorem Yields.many {item : Parser (Option α)} (h : Yields item (IfSome P)) :
    Yields (many item) (∀ x ∈ ·, P x) :=
  yields_remaining.bind fun _ _ => h.manyUpTo _

theorem yields_repeatUpTo {change : σ → Parser (Option σ)} {I : σ → Prop}
    (h : ∀ v, I v → Yields (change v) (IfSome I)) (bound : Nat) :
    ∀ v, I v → Yields (repeatUpTo change bound v) I := by
  induction bound with
  | zero => exact fun v hv => yields_pure hv
  | succ bound ih =>
      intro v hv
      refine (h v hv).bind fun found hfound => ?_
      cases found with
      | none => exact yields_pure hv
      | some w => exact ih w (hfound w rfl)

theorem yields_repeatFrom {change : σ → Parser (Option σ)} {I : σ → Prop}
    (h : ∀ v, I v → Yields (change v) (IfSome I)) {v : σ} (hv : I v) :
    Yields (repeatFrom change v) I :=
  yields_remaining.bind fun _ _ => yields_repeatUpTo h _ v hv

end Parser

end SparqlMetrics
