import SparqlMetrics.Grammar.Expression
import SparqlMetrics.Proofs.Grammar.Before
import SparqlMetrics.Written.Query

/-!
# Reading a text in front of another one

`Reads` says what an action does in front of a text: under a condition it returns a given value and
stands behind the text, and without it it ends otherwise. It fails, as a rule (`Fares`); an action
inside an expression may also stop at a comparison that it cannot take in (`Strays`). There is one
rule for each way of composing actions. The cursors have no offsets, so the spans of what is read
are empty.
-/
namespace SparqlMetrics

open Lexeme

namespace Cursor

/-- The cursor in front of a text, without the offsets of its tokens. -/
def before (s : Text) : Cursor where
  ahead := (TokenStream.ofText s).lexemes.1.map fun l => ⟨l, 0, 0⟩
  last := ⟨(TokenStream.ofText s).lexemes.2, 0, 0⟩

theorem at_before (s : Text) : (before s).At s := by
  refine ⟨?_, rfl⟩
  rw [before, List.map_map]
  exact List.map_id _

variable {s rest : Text} {l : Lexeme}

theorem before_of_opens (h : Opens s l rest) :
    before s = { before rest with ahead := ⟨l, 0, 0⟩ :: (before rest).ahead } := by
  simp [before, TokenStream.lexemes_of_opens h]

theorem advance_before (h : Opens s l rest) : (before s).advance = before rest := by
  rw [before_of_opens h]
  rfl

theorem before_space {b : Byte} (s : Text) (h : b.isSpace = true) : before (b :: s) = before s := by
  have same : (TokenStream.ofText (b :: s)).lexemes = (TokenStream.ofText s).lexemes :=
    TokenStream.lexemes_congr (by simp [skipGap, h])
  simp [before, same]

theorem before_spaces (n : Nat) (s : Text) : before (Text.spaces n ++ s) = before s := by
  induction n with
  | zero => rfl
  | succ n ih =>
      have shape : Text.spaces (n + 1) ++ s = Byte.space :: (Text.spaces n ++ s) := by
        rw [Text.spaces, List.replicate_succ, List.cons_append]
        rfl
      rw [shape, before_space _ (by decide), ih]

end Cursor

/-- The lexeme in front of a text. -/
def Text.first (s : Text) : Lexeme := (Cursor.before s).token.lexeme

/-- The lexeme behind the one in front of a text. -/
def Text.second (s : Text) : Lexeme := (Cursor.before s).following.lexeme

/-- How many tokens a text has before the terminal one. -/
def Text.tokens (s : Text) : Nat := (Cursor.before s).ahead.length

namespace Text

variable {s rest rest' : Text} {l l' : Lexeme}

theorem first_nil : first [] = .endOfInput := by
  rw [first, Cursor.before, TokenStream.lexemes_of_gap (s := []) rfl]
  rfl

theorem tokens_nil : tokens [] = 0 := by
  rw [tokens, Cursor.before, TokenStream.lexemes_of_gap (s := []) rfl]
  rfl

theorem first_of_opens (h : Opens s l rest) : s.first = l := by
  rw [first, Cursor.before_of_opens h]
  rfl

theorem second_of_opens (h : Opens s l rest) : s.second = rest.first := by
  rw [second, Cursor.before_of_opens h]
  rfl

theorem tokens_of_opens (h : Opens s l rest) : s.tokens = rest.tokens + 1 := by
  rw [tokens, Cursor.before_of_opens h]
  rfl

theorem first_space {b : Byte} (s : Text) (h : b.isSpace = true) : first (b :: s) = s.first := by
  rw [first, Cursor.before_space s h]
  rfl

theorem tokens_space {b : Byte} (s : Text) (h : b.isSpace = true) :
    tokens (b :: s) = s.tokens := by
  rw [tokens, Cursor.before_space s h]
  rfl

theorem first_spaces (n : Nat) (s : Text) : first (spaces n ++ s) = s.first := by
  rw [first, Cursor.before_spaces]
  rfl

end Text

theorem Cursor.token_before (s : Text) : (before s).token = ⟨s.first, 0, 0⟩ := by
  have zero : ∀ t ∈ (before s).ahead, t = ⟨t.lexeme, 0, 0⟩ := by
    intro t member
    obtain ⟨l, _, rfl⟩ := List.mem_map.mp member
    rfl
  rw [Text.first, Cursor.token]
  cases ahead : (before s).ahead with
  | nil => rfl
  | cons t ts => exact zero t (ahead ▸ List.mem_cons_self)

namespace Grammar

open SparqlMetrics.Parser TwoRuns Cursor

section Outcomes
variable {α : Type}

def Fails (r : Except ParseError (α × Cursor)) : Prop := ∃ e, r = .error e

/-- A lexeme that opens a comparison or a membership test behind an expression. -/
def isRelational (l : Lexeme) : Bool :=
  isComparison l || l.keyword? == some .IN || l.keyword? == some .NOT

def AtRelation (c : Cursor) : Prop := isRelational c.token.lexeme = true

/-- An outcome that is an error or stops at a comparison. -/
def Derails (r : Except ParseError (α × Cursor)) : Prop :=
  Fails r ∨ ∃ x c, r = .ok (x, c) ∧ AtRelation c

theorem fails_error (e : ParseError) : Fails (.error e : Except ParseError (α × Cursor)) := ⟨e, rfl⟩

theorem derails_error (e : ParseError) : Derails (.error e : Except ParseError (α × Cursor)) :=
  .inl ⟨e, rfl⟩

/-- What an action does in front of a text. -/
structure Reads (otherwise : Except ParseError (α × Cursor) → Prop) (p : Parser α) (s : Text)
    (g : Prop) (x : α) (rest : Text) : Prop where
  result : g → p (before (s ++ rest)) = .ok (x, before rest)
  failure : ¬ g → otherwise (p (before (s ++ rest)))
  fewer : s ≠ [] → rest.tokens < (s ++ rest).tokens

/-- Reads a text or fails. -/
abbrev Fares (p : Parser α) (s : Text) (g : Prop) (x : α) (rest : Text) : Prop :=
  Reads Fails p s g x rest

/-- Reads a text, fails or stops at a comparison. -/
abbrev Strays (p : Parser α) (s : Text) (g : Prop) (x : α) (rest : Text) : Prop :=
  Reads Derails p s g x rest

end Outcomes

section Rules
variable {α β : Type} {o : Except ParseError (β × Cursor) → Prop} {p : Parser α}
  {f : α → Parser β} {s t rest : Text} {g g' : Prop} {x : α} {y : β}

theorem Reads.le {o : Except ParseError (α × Cursor) → Prop} (h : Reads o p s g x rest) :
    rest.tokens ≤ (s ++ rest).tokens := by
  cases s with
  | nil => exact Nat.le_refl _
  | cons b s => exact Nat.le_of_lt (h.fewer nofun)

theorem Reads.congr {o : Except ParseError (α × Cursor) → Prop} (h : Reads o p s g x rest)
    (same : g ↔ g') : Reads o p s g' x rest :=
  ⟨fun hg => h.result (same.mpr hg), fun hg => h.failure fun hg' => hg (same.mp hg'), h.fewer⟩

theorem Reads.value {o : Except ParseError (α × Cursor) → Prop} (h : Reads o p s g x rest) {x' : α}
    (same : x = x') : Reads o p s g x' rest := same ▸ h

theorem Fares.strays (h : Fares p s g x rest) : Strays p s g x rest :=
  ⟨h.result, fun hg => .inl (h.failure hg), h.fewer⟩

/-- Reads nothing and stays. -/
theorem reads_nothing {o : Except ParseError (α × Cursor) → Prop}
    (h : p (before rest) = .ok (x, before rest)) : Reads o p [] True x rest :=
  ⟨fun _ => h, fun absurdity => absurd trivial absurdity, fun absurdity => absurd rfl absurdity⟩

theorem fewer_append (first : s ≠ [] → (t ++ rest).tokens < (s ++ (t ++ rest)).tokens)
    (second : t ≠ [] → rest.tokens < (t ++ rest).tokens) :
    s ++ t ≠ [] → rest.tokens < (s ++ t ++ rest).tokens := by
  intro nonempty
  rw [List.append_assoc]
  have le : rest.tokens ≤ (t ++ rest).tokens := by
    cases t with
    | nil => exact Nat.le_refl _
    | cons b t => exact Nat.le_of_lt (second nofun)
  cases s with
  | nil => exact second nonempty
  | cons b s => exact Nat.lt_of_le_of_lt le (first nofun)

theorem Reads.bind (errors : ∀ e, o (.error e)) (hp : Fares p s g x (t ++ rest))
    (hf : Reads o (f x) t g' y rest) : Reads o (p >>= f) (s ++ t) (g ∧ g') y rest := by
  refine ⟨fun ⟨hg, hg'⟩ => ?_, fun hg => ?_, fewer_append hp.fewer hf.fewer⟩
  · rw [List.append_assoc, bind_eq_of_ok (hp.result hg)]
    exact hf.result hg'
  · rw [List.append_assoc]
    by_cases first : g
    · rw [bind_eq_of_ok (hp.result first)]
      exact hf.failure fun second => hg ⟨first, second⟩
    · obtain ⟨e, failed⟩ := hp.failure first
      rw [bind_eq_of_error failed]
      exact errors e

theorem Fares.bind (hp : Fares p s g x (t ++ rest)) (hf : Fares (f x) t g' y rest) :
    Fares (p >>= f) (s ++ t) (g ∧ g') y rest := Reads.bind fails_error hp hf

/-- Behind an action that may stray, one that stays where a comparison follows. -/
theorem Strays.bind (hp : Strays p s g x (t ++ rest)) (hf : Strays (f x) t g' y rest)
    (steady : ∀ x c, AtRelation c → Derails (f x c)) :
    Strays (p >>= f) (s ++ t) (g ∧ g') y rest := by
  refine ⟨fun ⟨hg, hg'⟩ => ?_, fun hg => ?_, fewer_append hp.fewer hf.fewer⟩
  · rw [List.append_assoc, bind_eq_of_ok (hp.result hg)]
    exact hf.result hg'
  · rw [List.append_assoc]
    by_cases first : g
    · rw [bind_eq_of_ok (hp.result first)]
      exact hf.failure fun second => hg ⟨first, second⟩
    · rcases hp.failure first with ⟨e, failed⟩ | ⟨x', c, stopped, relation⟩
      · rw [bind_eq_of_error failed]
        exact derails_error e
      · rw [bind_eq_of_ok stopped]
        exact steady x' c relation

/-- Behind an action that may stray, one that fails where a comparison follows. -/
theorem Strays.close (hp : Strays p s g x (t ++ rest)) (hf : Fares (f x) t g' y rest)
    (fails : ∀ x c, AtRelation c → Fails (f x c)) : Fares (p >>= f) (s ++ t) (g ∧ g') y rest := by
  refine ⟨fun ⟨hg, hg'⟩ => ?_, fun hg => ?_, fewer_append hp.fewer hf.fewer⟩
  · rw [List.append_assoc, bind_eq_of_ok (hp.result hg)]
    exact hf.result hg'
  · rw [List.append_assoc]
    by_cases first : g
    · rw [bind_eq_of_ok (hp.result first)]
      exact hf.failure fun second => hg ⟨first, second⟩
    · rcases hp.failure first with ⟨e, failed⟩ | ⟨x', c, stopped, relation⟩
      · rw [bind_eq_of_error failed]
        exact fails_error e
      · rw [bind_eq_of_ok stopped]
        exact fails x' c relation

/-- In front of an action, one that looks ahead and stays. -/
theorem Reads.peek (look : p (before (s ++ rest)) = .ok (x, before (s ++ rest)))
    (hf : Reads o (f x) s g y rest) : Reads o (p >>= f) s g y rest := by
  have step : (p >>= f) (before (s ++ rest)) = f x (before (s ++ rest)) := bind_eq_of_ok look
  exact ⟨fun hg => step ▸ hf.result hg, fun hg => step ▸ hf.failure hg, hf.fewer⟩

/-- Behind an action, one that only makes a value. -/
theorem Fares.bind_pure (hp : Fares p s g x rest) (hf : f x (before rest) = .ok (y, before rest)) :
    Fares (p >>= f) s g y rest := by
  have whole := Fares.bind (t := []) hp (reads_nothing hf)
  rw [List.append_nil] at whole
  exact whole.congr (and_iff_left trivial)

theorem Fares.map {h : α → β} (hp : Fares p s g x rest) : Fares (h <$> p) s g (h x) rest := by
  rw [← bind_pure_comp]
  exact hp.bind_pure rfl

end Rules

section Space
variable {α : Type} {o : Except ParseError (α × Cursor) → Prop} {p : Parser α} {s rest : Text}
  {g : Prop} {x : α}

/-- White space in front of a text changes nothing. -/
theorem Reads.space {b : Byte} (h : Reads o p s g x rest) (space : b.isSpace = true)
    (nonempty : s ≠ []) : Reads o p (b :: s) g x rest := by
  have same : before (b :: s ++ rest) = before (s ++ rest) := before_space (s ++ rest) space
  refine ⟨fun hg => same ▸ h.result hg, fun hg => same ▸ h.failure hg, fun _ => ?_⟩
  rw [List.cons_append, Text.tokens_space _ space]
  exact h.fewer nonempty

theorem Reads.spaces (h : Reads o p s g x rest) (n : Nat) (nonempty : s ≠ []) :
    Reads o p (Text.spaces n ++ s) g x rest := by
  induction n with
  | zero => exact h
  | succ n ih =>
      have shape : Text.spaces (n + 1) ++ s = Byte.space :: (Text.spaces n ++ s) := by
        rw [Text.spaces, List.replicate_succ, List.cons_append]
        rfl
      rw [shape]
      exact ih.space (by decide) fun empty => nonempty (List.append_eq_nil_iff.mp empty).2

/-- White space behind a text changes nothing. -/
theorem Reads.trailing {b : Byte} (h : Reads o p s g x (b :: rest)) (space : b.isSpace = true)
    (nonempty : s ≠ []) : Reads o p (s ++ [b]) g x rest := by
  have shape : s ++ [b] ++ rest = s ++ b :: rest := List.append_assoc s [b] rest
  refine ⟨fun hg => ?_, fun hg => ?_, fun _ => ?_⟩
  · rw [shape, h.result hg, before_space rest space]
  · rw [shape]
    exact h.failure hg
  · rw [shape, ← Text.tokens_space rest space]
    exact h.fewer nonempty

/-- A line is read as what it holds. -/
theorem Reads.line (h : Reads o p s g x (Byte.newline :: rest)) (indent : Nat) (nonempty : s ≠ []) :
    Reads o p (SparqlMetrics.line indent s) g x rest := by
  have trailing := h.trailing (by decide) nonempty
  have whole := trailing.spaces indent fun empty => nonempty (List.append_eq_nil_iff.mp empty).1
  rw [SparqlMetrics.line, List.append_assoc]
  exact whole

end Space


end Grammar

end SparqlMetrics
