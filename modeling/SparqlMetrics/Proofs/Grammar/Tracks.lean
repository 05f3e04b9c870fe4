import Mathlib.Data.List.Forall2
import SparqlMetrics.Proofs.Absolute
import SparqlMetrics.Proofs.Grammar.Yields
import SparqlMetrics.Proofs.Tree.Rewriting

/-!
# Two runs of the grammar

One run follows another when their tokens are alike, their declarations answer alike and the second
run succeeds: then the first one succeeds too, with a result that is equal up to a rewriting, unless
it stops at a name that its declarations lack. `TwoRuns` says what is alike, what is rewritten and
which failures count as such a lack; `TwoRuns.Tracks` is the relation of two actions, with one rule
for each way of composing actions.
-/
namespace SparqlMetrics

/-- What two runs have in common. The second run may spell an IRI as a prefixed name where the first
one has a reference, if the two are known to stand for one IRI. -/
structure TwoRuns where
  rewriting : Rewriting
  escapes : ParseFailure → Prop
  related : Namespaces → Namespaces → Prop
  respelled : Text → Text → Text → Prop
  span_eq : ∀ a b, rewriting.span a = rewriting.span b
  leaf_eq : ∀ e, rewriting.leaf e = e
  resolve : ∀ {ns ms : Namespaces} {reference iri : Text}, related ns ms →
    ms.resolve? reference = some iri →
      (∃ other, ns.resolve? reference = some other ∧ rewriting.iri other = rewriting.iri iri) ∨
        ns.resolve? reference = none ∧ escapes (.missingBase reference)
  expand : ∀ {ns ms : Namespaces} {label localName iri : Text}, related ns ms →
    IsPrefixLabel label → ms.expand? label localName = some iri →
      (∃ other, ns.expand? label localName = some other ∧
        rewriting.iri other = rewriting.iri iri) ∨
        ns.expand? label localName = none ∧ escapes (.undeclaredPrefix label)
  respell : ∀ {ns ms : Namespaces} {reference label localName iri : Text}, related ns ms →
    respelled reference label localName → ms.expand? label localName = some iri →
      ∃ other, ns.resolve? reference = some other ∧ rewriting.iri other = rewriting.iri iri

/-- Lexemes that the two runs read alike. -/
inductive Lexeme.Alike (respelled : Text → Text → Text → Prop) : Lexeme → Lexeme → Prop
  | same (here : Lexeme) : Alike respelled here here
  | iri {reference label localName : Text} : respelled reference label localName →
      Alike respelled (.iri reference) (.prefixedName label localName)

namespace TwoRuns

/-- Whether two cursors stand at alike tokens. -/
structure Aligned (S : TwoRuns) (c d : Cursor) : Prop where
  ahead : List.Forall₂ (fun t u => Lexeme.Alike S.respelled t.lexeme u.lexeme) c.ahead d.ahead
  last : c.last.lexeme = d.last.lexeme
  blankCount : c.blankCount = d.blankCount
  spelled : d.Spelled

variable {S : TwoRuns} {c d : Cursor}

theorem Aligned.advance (h : S.Aligned c d) : S.Aligned c.advance d.advance := by
  refine ⟨?_, h.last, h.blankCount, h.spelled.advance⟩
  obtain ⟨cAhead, cLast, cCount⟩ := c
  obtain ⟨dAhead, dLast, dCount⟩ := d
  cases h.ahead with
  | nil => exact .nil
  | cons _ rest => exact rest

theorem Aligned.token (h : S.Aligned c d) :
    Lexeme.Alike S.respelled c.token.lexeme d.token.lexeme := by
  obtain ⟨cAhead, cLast, cCount⟩ := c
  obtain ⟨dAhead, dLast, dCount⟩ := d
  have last : cLast.lexeme = dLast.lexeme := h.last
  cases h.ahead with
  | nil =>
      show Lexeme.Alike S.respelled cLast.lexeme dLast.lexeme
      rw [last]
      exact .same _
  | cons head _ => exact head

theorem Aligned.following (h : S.Aligned c d) :
    Lexeme.Alike S.respelled c.following.lexeme d.following.lexeme :=
  h.advance.token

/-- Whenever the second action succeeds, the first one does alike or stops where it may. -/
def Tracks {α β : Type} (S : TwoRuns) (R : α → β → Prop) (p : Parser α) (q : Parser β) : Prop :=
  ∀ c d, S.Aligned c d → ∀ y d', q d = .ok (y, d') →
    (∃ x c', p c = .ok (x, c') ∧ R x y ∧ S.Aligned c' d') ∨
      ∃ e, p c = .error e ∧ S.escapes e.failure

/-- Results of which a function gives the same. -/
abbrev Same {α κ : Type} (f : α → κ) (x y : α) : Prop := f x = f y

open SparqlMetrics.Parser

section Rules
variable {α β γ δ σ κ : Type} {R : α → β → Prop} {Q : γ → δ → Prop}

theorem bind_eq_of_ok {p : Parser α} {f : α → Parser γ} {c c₁ : Cursor} {x : α}
    (h : p c = .ok (x, c₁)) : (p >>= f) c = f x c₁ := by
  show (p c >>= fun r => f r.1 r.2) = _
  rw [h]
  rfl

theorem bind_eq_of_error {p : Parser α} {f : α → Parser γ} {c : Cursor} {e : ParseError}
    (h : p c = .error e) : (p >>= f) c = .error e := by
  show (p c >>= fun r => f r.1 r.2) = _
  rw [h]
  rfl

theorem tracks_pure {x : α} {y : β} (h : R x y) : S.Tracks R (pure x) (pure y) := by
  intro c d aligned z d' hz
  obtain ⟨rfl, rfl⟩ := Prod.mk.inj (Except.ok.inj hz)
  exact .inl ⟨x, c, rfl, h, aligned⟩

theorem Tracks.bind {p : Parser α} {q : Parser β} {f : α → Parser γ} {g : β → Parser δ}
    (hp : S.Tracks R p q) (hf : ∀ x y, R x y → S.Tracks Q (f x) (g y)) :
    S.Tracks Q (p >>= f) (q >>= g) := by
  intro c d aligned z d' hz
  obtain ⟨y, d₁, hy, hrest⟩ := bind_eq_ok.mp hz
  rcases hp c d aligned y d₁ hy with ⟨x, c₁, hx, related, aligned₁⟩ | ⟨e, he, escape⟩
  · rw [bind_eq_of_ok hx]
    exact hf x y related c₁ d₁ aligned₁ z d' hrest
  · exact .inr ⟨e, bind_eq_of_error he, escape⟩

theorem Tracks.map {p : Parser α} {q : Parser β} {f : α → γ} {g : β → δ} (hp : S.Tracks R p q)
    (hf : ∀ x y, R x y → Q (f x) (g y)) : S.Tracks Q (f <$> p) (g <$> q) := by
  rw [← bind_pure_comp, ← bind_pure_comp]
  exact hp.bind fun x y related => tracks_pure (hf x y related)

theorem Tracks.mono {p : Parser α} {q : Parser β} {R' : α → β → Prop} (hp : S.Tracks R p q)
    (h : ∀ x y, R x y → R' x y) : S.Tracks R' p q := by
  intro c d aligned y d' hy
  rcases hp c d aligned y d' hy with ⟨x, c', hx, related, aligned'⟩ | escape
  · exact .inl ⟨x, c', hx, h x y related, aligned'⟩
  · exact .inr escape

/-- An action that fails is followed by every other. -/
theorem tracks_fail (p : Parser α) (cause : Malformed) :
    S.Tracks R p (fail cause : Parser β) := by
  intro c d _ y d' hy
  cases hy

theorem tracks_expected (p : Parser α) (e : Expectation) :
    S.Tracks R p (expected e : Parser β) := tracks_fail p _

/-- Actions that read something off their cursors and leave them in place. -/
theorem tracks_read {f : Cursor → α} {g : Cursor → β}
    (h : ∀ c d, S.Aligned c d → R (f c) (g d)) :
    S.Tracks R (fun c => .ok (f c, c)) (fun d => .ok (g d, d)) := by
  intro c d aligned y d' hy
  obtain ⟨rfl, rfl⟩ : g d = y ∧ d = d' := by simpa using hy
  exact .inl ⟨f c, c, rfl, h c d aligned, aligned⟩

/-- Alike lexemes, the second one spelled by the rules. -/
def AlikeSpelled (S : TwoRuns) (here there : Lexeme) : Prop :=
  Lexeme.Alike S.respelled here there ∧ there.Spelled

theorem tracks_token : S.Tracks (fun t u => S.AlikeSpelled t.lexeme u.lexeme) token token :=
  tracks_read fun _ _ aligned => ⟨aligned.token, aligned.spelled.token⟩

theorem tracks_lexeme : S.Tracks S.AlikeSpelled lexeme lexeme :=
  tracks_read fun _ _ aligned => ⟨aligned.token, aligned.spelled.token⟩

theorem tracks_followingLexeme : S.Tracks S.AlikeSpelled followingLexeme followingLexeme :=
  tracks_read fun _ _ aligned => ⟨aligned.following, aligned.spelled.following⟩

theorem tracks_position : S.Tracks (fun _ _ => True) position position :=
  tracks_read fun _ _ _ => trivial

theorem tracks_remaining : S.Tracks Eq remaining remaining :=
  tracks_read fun _ _ aligned => aligned.ahead.length_eq

/-- A question about a lexeme that an IRI and a prefixed name answer alike. -/
theorem AlikeSpelled.answer {here there : Lexeme} (h : S.AlikeSpelled here there)
    {f : Lexeme → κ} (iris : ∀ reference label localName,
      f (.iri reference) = f (.prefixedName label localName)) : f here = f there := by
  cases h.1 with
  | same => rfl
  | iri => exact iris _ _ _

theorem tracks_isAt (s : Symbol) : S.Tracks Eq (isAt s) (isAt s) :=
  tracks_read fun _ _ aligned =>
    AlikeSpelled.answer (f := (· == .symbol s)) ⟨aligned.token, aligned.spelled.token⟩
      fun _ _ _ => rfl

theorem tracks_isAtKeyword (k : Keyword) : S.Tracks Eq (isAtKeyword k) (isAtKeyword k) :=
  tracks_read fun _ _ aligned =>
    AlikeSpelled.answer (f := (·.keyword? == some k)) ⟨aligned.token, aligned.spelled.token⟩
      fun _ _ _ => rfl

theorem tracks_skip : S.Tracks Eq skip skip := by
  intro c d aligned y d' hy
  obtain rfl : d.advance = d' := by simpa [skip] using hy
  exact .inl ⟨(), c.advance, rfl, rfl, aligned.advance⟩

/-- Two choices by one condition. -/
theorem tracks_ite {b : Bool} {p p' : Parser α} {q q' : Parser β} (hp : b = true → S.Tracks R p q)
    (hp' : b = false → S.Tracks R p' q') :
    S.Tracks R (if b then p else p') (if b then q else q') := by
  cases b with
  | true => exact hp rfl
  | false => exact hp' rfl

theorem tracks_mark (s : Symbol) (e : Expectation) : S.Tracks Eq (mark s e) (mark s e) :=
  tracks_lexeme.bind fun here there alike => by
    rw [alike.answer (f := (· == .symbol s)) fun _ _ _ => rfl]
    exact tracks_ite (fun _ => tracks_skip) fun _ => tracks_expected _ _

theorem tracks_keyword (k : Keyword) (e : Expectation) :
    S.Tracks Eq (keyword k e) (keyword k e) :=
  (tracks_isAtKeyword k).bind fun _ _ same =>
    same ▸ tracks_ite (fun _ => tracks_skip) fun _ => tracks_expected _ _

theorem tracks_tryKeyword (k : Keyword) : S.Tracks Eq (tryKeyword k) (tryKeyword k) :=
  (tracks_isAtKeyword k).bind fun _ _ same =>
    same ▸ tracks_ite (fun _ => tracks_skip.bind fun _ _ _ => tracks_pure rfl)
      fun _ => tracks_pure rfl

theorem tracks_tryMark (s : Symbol) : S.Tracks Eq (tryMark s) (tryMark s) :=
  (tracks_isAt s).bind fun _ _ same =>
    same ▸ tracks_ite (fun _ => tracks_skip.bind fun _ _ _ => tracks_pure rfl)
      fun _ => tracks_pure rfl

theorem tracks_variableName (e : Expectation) :
    S.Tracks Eq (variableName e) (variableName e) :=
  tracks_lexeme.bind fun here there alike => by
    cases alike.1 with
    | same =>
        split
        · exact tracks_skip.bind fun _ _ _ => tracks_pure rfl
        · exact tracks_expected _ _
    | iri => exact tracks_expected _ _

theorem Tracks.manyUpTo {f : α → κ} {item item' : Parser (Option α)}
    (h : S.Tracks (Same (Option.map f)) item item') (bound : Nat) :
    S.Tracks (Same (List.map f)) (manyUpTo item bound) (manyUpTo item' bound) := by
  induction bound with
  | zero => exact tracks_pure rfl
  | succ bound ih =>
      refine h.bind fun found found' same => ?_
      cases found with
      | none =>
          cases found' with
          | none => exact tracks_pure rfl
          | some y => cases same
      | some x =>
          cases found' with
          | none => cases same
          | some y =>
              have head : f x = f y := Option.some.inj same
              refine ih.bind fun more more' tail => tracks_pure ?_
              show List.map f (x :: more) = List.map f (y :: more')
              rw [List.map_cons, List.map_cons, head, tail]

theorem Tracks.many {f : α → κ} {item item' : Parser (Option α)}
    (h : S.Tracks (Same (Option.map f)) item item') :
    S.Tracks (Same (List.map f)) (many item) (many item') :=
  tracks_remaining.bind fun _ _ same => same ▸ h.manyUpTo _

theorem tracks_repeatUpTo {T : σ → σ → Prop} {change change' : σ → Parser (Option σ)}
    (h : ∀ v w, T v w → S.Tracks (Option.Rel T) (change v) (change' w)) (bound : Nat) :
    ∀ v w, T v w → S.Tracks T (repeatUpTo change bound v) (repeatUpTo change' bound w) := by
  induction bound with
  | zero => exact fun v w related => tracks_pure related
  | succ bound ih =>
      intro v w related
      refine (h v w related).bind fun found found' same => ?_
      cases same with
      | none => exact tracks_pure related
      | some changed => exact ih _ _ changed

theorem tracks_repeatFrom {T : σ → σ → Prop} {change change' : σ → Parser (Option σ)}
    (h : ∀ v w, T v w → S.Tracks (Option.Rel T) (change v) (change' w)) {v w : σ}
    (related : T v w) : S.Tracks T (repeatFrom change v) (repeatFrom change' w) :=
  tracks_remaining.bind fun _ _ same => same ▸ tracks_repeatUpTo h _ v w related

theorem Tracks.rel {f : α → κ} {p q : Parser (Option α)}
    (h : S.Tracks (Same (Option.map f)) p q) : S.Tracks (Option.Rel (Same f)) p q :=
  h.mono fun x y same => by
    cases x with
    | none =>
        cases y with
        | none => exact .none
        | some y => cases same
    | some x =>
        cases y with
        | none => cases same
        | some y => exact .some (Option.some.inj same)

theorem tracks_loop {f : σ → κ} {change change' : σ → Parser (Option σ)}
    (h : ∀ v w, Same f v w → S.Tracks (Same (Option.map f)) (change v) (change' w)) {v w : σ}
    (same : Same f v w) : S.Tracks (Same f) (repeatFrom change v) (repeatFrom change' w) :=
  tracks_repeatFrom (fun v w related => (h v w related).rel) same

theorem Tracks.some {f : α → κ} {p q : Parser α} (h : S.Tracks (Same f) p q) :
    S.Tracks (Same (Option.map f)) (some <$> p) (some <$> q) :=
  h.map fun _ _ same => congrArg Option.some same

theorem tracks_none {f : α → κ} :
    S.Tracks (Same (Option.map f)) (pure none : Parser (Option α)) (pure none) :=
  tracks_pure rfl

end Rules

end TwoRuns

end SparqlMetrics
