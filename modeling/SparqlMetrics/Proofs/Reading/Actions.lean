import SparqlMetrics.Proofs.Declarations
import SparqlMetrics.Proofs.Reading.Reads

/-!
# Reading single tokens and loops

What the single steps of the grammar do in front of a text whose first lexeme is known, and what its
loops do in front of the texts of some items: each item takes a token at least, so the bound of a
loop is never reached.
-/
namespace SparqlMetrics.Grammar

open SparqlMetrics.Parser TwoRuns Cursor Lexeme

section Steps
variable {α β : Type} {o : Except ParseError (β × Cursor) → Prop} {p : Parser α} {s t rest : Text}
  {g : Prop} {x : α} {y : β} {l : Lexeme}

/-- Behind an action that always reads its text. -/
theorem Reads.behind {f : α → Parser β} (errors : ∀ e, o (.error e))
    (hp : Fares p s True x (t ++ rest)) (hf : Reads o (f x) t g y rest) :
    Reads o (p >>= f) (s ++ t) g y rest :=
  (Reads.bind errors hp hf).congr (and_iff_right trivial)

theorem Fares.then {f : α → Parser β} (hp : Fares p s True x (t ++ rest))
    (hf : Fares (f x) t g y rest) : Fares (p >>= f) (s ++ t) g y rest :=
  Reads.behind fails_error hp hf

theorem Fares.then_strays {f : α → Parser β} (hp : Fares p s True x (t ++ rest))
    (hf : Strays (f x) t g y rest) : Strays (p >>= f) (s ++ t) g y rest :=
  Reads.behind derails_error hp hf

theorem Reads.lexeme {f : Lexeme → Parser β} (h : (s ++ rest).first = l)
    (hf : Reads o (f l) s g y rest) : Reads o (lexeme >>= f) s g y rest :=
  Reads.peek (by rw [← h]; rfl) hf

theorem Reads.followingLexeme {f : Lexeme → Parser β} (h : (s ++ rest).second = l)
    (hf : Reads o (f l) s g y rest) : Reads o (followingLexeme >>= f) s g y rest :=
  Reads.peek (by rw [← h]; rfl) hf

theorem Reads.token {f : Token → Parser β} (h : (s ++ rest).first = l)
    (hf : Reads o (f ⟨l, 0, 0⟩) s g y rest) : Reads o (token >>= f) s g y rest :=
  Reads.peek (by rw [← h, ← token_before]; rfl) hf

theorem position_before (s : Text) : position (before s) = .ok (0, before s) := by
  show Except.ok ((before s).token.start, before s) = _
  rw [token_before]

theorem Reads.position {f : Nat → Parser β} (hf : Reads o (f 0) s g y rest) :
    Reads o (position >>= f) s g y rest :=
  Reads.peek (position_before _) hf

theorem isAt_before {m : Symbol} {b : Bool} (h : (s.first == .symbol m) = b) :
    SparqlMetrics.Parser.isAt m (before s) = .ok (b, before s) :=
  congrArg (fun b => Except.ok (b, before s)) h

theorem isAtKeyword_before {k : Keyword} {b : Bool} (h : (s.first.keyword? == some k) = b) :
    SparqlMetrics.Parser.isAtKeyword k (before s) = .ok (b, before s) :=
  congrArg (fun b => Except.ok (b, before s)) h

theorem Reads.isAt {f : Bool → Parser β} {m : Symbol} {b : Bool}
    (h : ((s ++ rest).first == .symbol m) = b) (hf : Reads o (f b) s g y rest) :
    Reads o (isAt m >>= f) s g y rest :=
  Reads.peek (isAt_before h) hf

theorem Reads.isAtKeyword {f : Bool → Parser β} {k : Keyword} {b : Bool}
    (h : ((s ++ rest).first.keyword? == some k) = b) (hf : Reads o (f b) s g y rest) :
    Reads o (isAtKeyword k >>= f) s g y rest :=
  Reads.peek (isAtKeyword_before h) hf

theorem fares_skip (h : Opens (s ++ rest) l rest) : Fares skip s True () rest := by
  refine ⟨fun _ => ?_, fun absurdity => absurd trivial absurdity, fun _ => ?_⟩
  · show Except.ok ((), (before (s ++ rest)).advance) = _
    rw [advance_before h]
  · rw [Text.tokens_of_opens h]
    exact Nat.lt_succ_self _

theorem fares_mark {m : Symbol} (e : Expectation) (h : Opens (s ++ rest) (.symbol m) rest) :
    Fares (mark m e) s True () rest := by
  refine Reads.lexeme (Text.first_of_opens h) ?_
  rw [if_pos (by simp)]
  exact fares_skip h

theorem fares_keyword {k : Keyword} (e : Expectation) (h : Opens (s ++ rest) l rest)
    (hk : l.keyword? = some k) : Fares (keyword k e) s True () rest := by
  refine Reads.isAtKeyword (b := true) (by rw [Text.first_of_opens h, hk]; simp) ?_
  exact fares_skip h

theorem fares_tryKeyword {k : Keyword} (h : Opens (s ++ rest) l rest) (hk : l.keyword? = some k) :
    Fares (tryKeyword k) s True true rest := by
  refine Reads.isAtKeyword (b := true) (by rw [Text.first_of_opens h, hk]; simp) ?_
  exact (fares_skip h).bind_pure rfl

theorem fares_tryMark {m : Symbol} (h : Opens (s ++ rest) (.symbol m) rest) :
    Fares (tryMark m) s True true rest := by
  refine Reads.isAt (b := true) (by rw [Text.first_of_opens h]; simp) ?_
  exact (fares_skip h).bind_pure rfl

theorem tryMark_before {m : Symbol} (h : s.first ≠ .symbol m) :
    tryMark m (before s) = .ok (false, before s) := by
  have other : ((before s).token.lexeme == Lexeme.symbol m) = false := beq_eq_false_iff_ne.mpr h
  simp [tryMark, SparqlMetrics.Parser.isAt, other, bind, StateT.bind, Except.bind,
    pure_apply]

theorem tryKeyword_before {k : Keyword} (h : s.first.keyword? ≠ some k) :
    tryKeyword k (before s) = .ok (false, before s) := tryKeyword_eq_false h

/-- A mark that is not here is not passed over. -/
theorem Reads.noMark {f : Bool → Parser β} {m : Symbol} (h : (s ++ rest).first ≠ .symbol m)
    (hf : Reads o (f false) s g y rest) : Reads o (tryMark m >>= f) s g y rest :=
  Reads.peek (tryMark_before h) hf

theorem Reads.noKeyword {f : Bool → Parser β} {k : Keyword}
    (h : (s ++ rest).first.keyword? ≠ some k) (hf : Reads o (f false) s g y rest) :
    Reads o (tryKeyword k >>= f) s g y rest :=
  Reads.peek (tryKeyword_before h) hf

theorem fares_variableName {name : Text} (e : Expectation)
    (h : Opens (s ++ rest) (.variableName name) rest) :
    Fares (variableName e) s True name rest :=
  Reads.lexeme (Text.first_of_opens h) ((fares_skip h).bind_pure rfl)

end Steps

section Loops
variable {α ι σ : Type} {rest : Text}

/-- How a loop ends when one of its items ends otherwise. -/
structure Resumes (item : Parser (Option α)) (o : Except ParseError (Option α × Cursor) → Prop)
    (o' : Except ParseError (List α × Cursor) → Prop) : Prop where
  item : ∀ c n, o (item c) → o' (manyUpTo item (n + 1) c)
  tail : ∀ x r, o' r → o' (r >>= fun (xs, c) => .ok (x :: xs, c))

theorem resumes_fails (item : Parser (Option α)) : Resumes item Fails Fails where
  item := by
    rintro c n ⟨e, failed⟩
    rw [manyUpTo, bind_eq_of_error failed]
    exact fails_error e
  tail := by
    rintro x r ⟨e, rfl⟩
    exact fails_error e

theorem manyUpTo_idle {item : Parser (Option α)} {c : Cursor} (h : item c = .ok (none, c))
    (n : Nat) : manyUpTo item n c = .ok ([], c) := by
  cases n with
  | zero => rfl
  | succ n =>
      rw [manyUpTo, bind_eq_of_ok h]
      rfl

theorem manyUpTo_step {item : Parser (Option α)} {c c' : Cursor} {x : α}
    (h : item c = .ok (some x, c')) (n : Nat) :
    manyUpTo item (n + 1) c = (manyUpTo item n c' >>= fun (xs, c) => .ok (x :: xs, c)) := by
  rw [manyUpTo, bind_eq_of_ok h]
  rfl

theorem resumes_derails {item : Parser (Option α)}
    (idle : ∀ c, AtRelation c → item c = .ok (none, c)) : Resumes item Derails Derails where
  item := by
    rintro c n (⟨e, failed⟩ | ⟨found, c', stopped, relation⟩)
    · rw [manyUpTo, bind_eq_of_error failed]
      exact derails_error e
    · cases found with
      | none =>
          rw [manyUpTo, bind_eq_of_ok stopped]
          exact .inr ⟨[], c', rfl, relation⟩
      | some x =>
          rw [manyUpTo_step stopped, manyUpTo_idle (idle c' relation)]
          exact .inr ⟨[x], c', rfl, relation⟩
  tail := by
    rintro x r (⟨e, rfl⟩ | ⟨xs, c, rfl, relation⟩)
    · exact derails_error e
    · exact .inr ⟨x :: xs, c, rfl, relation⟩

theorem many_before {item : Parser (Option α)} {s : Text}
    (h : item (before s) = .ok (none, before s)) : many item (before s) = .ok ([], before s) :=
  manyUpTo_idle h _

variable {item : Parser (Option α)} {o : Except ParseError (Option α × Cursor) → Prop}
  {o' : Except ParseError (List α × Cursor) → Prop} {F : Text → Prop} {text : ι → Text}
  {g : ι → Prop} {value : ι → α} {xs : List ι}

/-- What is asked of the items of a loop: each is read in front of every text that may follow one, as
long as no more than a number of tokens are left, and an item may follow one too. -/
structure ReadsItemsUpTo (limit : Nat) (o : Except ParseError (Option α × Cursor) → Prop)
    (item : Parser (Option α)) (F : Text → Prop) (text : ι → Text) (g : ι → Prop) (value : ι → α)
    (xs : List ι) : Prop where
  reads : ∀ x ∈ xs, ∀ t, F t → (text x ++ t).tokens ≤ limit →
    Reads o item (text x) (g x) (some (value x)) t
  follows : ∀ x ∈ xs, ∀ t, F t → F (text x ++ t)
  nonempty : ∀ x ∈ xs, text x ≠ []

/-- What is asked of items that are read however many tokens are left. -/
structure ReadsItems (o : Except ParseError (Option α × Cursor) → Prop) (item : Parser (Option α))
    (F : Text → Prop) (text : ι → Text) (g : ι → Prop) (value : ι → α) (xs : List ι) : Prop where
  reads : ∀ x ∈ xs, ∀ t, F t → Reads o item (text x) (g x) (some (value x)) t
  follows : ∀ x ∈ xs, ∀ t, F t → F (text x ++ t)
  nonempty : ∀ x ∈ xs, text x ≠ []

theorem ReadsItems.upTo (h : ReadsItems o item F text g value xs) (limit : Nat) :
    ReadsItemsUpTo limit o item F text g value xs :=
  ⟨fun x member t hF _ => h.reads x member t hF, h.follows, h.nonempty⟩

namespace ReadsItemsUpTo

variable {limit : Nat}

theorem tail {x : ι} (h : ReadsItemsUpTo limit o item F text g value (x :: xs)) :
    ReadsItemsUpTo limit o item F text g value xs where
  reads y member := h.reads y (List.mem_cons_of_mem _ member)
  follows y member := h.follows y (List.mem_cons_of_mem _ member)
  nonempty y member := h.nonempty y (List.mem_cons_of_mem _ member)

theorem follow (h : ReadsItemsUpTo limit o item F text g value xs) (hF : F rest) :
    F (xs.flatMap text ++ rest) := by
  induction xs with
  | nil => exact hF
  | cons x xs ih =>
      rw [List.flatMap_cons, List.append_assoc]
      exact h.follows x List.mem_cons_self _ (ih h.tail)

/-- What one item does, and how many tokens are left behind it. -/
theorem head {x : ι} (h : ReadsItemsUpTo limit o item F text g value (x :: xs)) (hF : F rest)
    (enough : Text.tokens ((x :: xs).flatMap text ++ rest) ≤ limit) :
    Reads o item (text x) (g x) (some (value x)) (xs.flatMap text ++ rest) ∧
      Text.tokens (xs.flatMap text ++ rest) < Text.tokens ((x :: xs).flatMap text ++ rest) := by
  rw [List.flatMap_cons, List.append_assoc] at enough ⊢
  have read := h.reads x List.mem_cons_self _ (h.tail.follow hF) enough
  exact ⟨read, read.fewer (h.nonempty x List.mem_cons_self)⟩

theorem fewer (h : ReadsItemsUpTo limit o item F text g value xs) (hF : F rest)
    (enough : Text.tokens (xs.flatMap text ++ rest) ≤ limit) :
    xs.flatMap text ≠ [] → rest.tokens < Text.tokens (xs.flatMap text ++ rest) := by
  induction xs with
  | nil => exact fun absurdity => absurd rfl absurdity
  | cons x xs ih =>
      obtain ⟨read, fewer⟩ := h.head hF enough
      rw [List.flatMap_cons]
      exact fewer_append read.fewer (ih h.tail (by omega))

theorem manyUpTo (h : ReadsItemsUpTo limit o item F text g value xs) (hF : F rest)
    (resumes : Resumes item o o') (stop : item (before rest) = .ok (none, before rest)) (n : Nat)
    (enough : Text.tokens (xs.flatMap text ++ rest) ≤ limit)
    (rounds : Text.tokens (xs.flatMap text ++ rest) < n) :
    ((∀ x ∈ xs, g x) → SparqlMetrics.Parser.manyUpTo item n (before (xs.flatMap text ++ rest)) =
      .ok (xs.map value, before rest)) ∧
    (¬ (∀ x ∈ xs, g x) →
      o' (SparqlMetrics.Parser.manyUpTo item n (before (xs.flatMap text ++ rest)))) := by
  induction xs generalizing n with
  | nil =>
      refine ⟨fun _ => ?_, fun absurdity => absurd nofun absurdity⟩
      exact manyUpTo_idle stop n
  | cons x xs ih =>
      obtain ⟨head, fewer⟩ := h.head hF enough
      obtain ⟨n, rfl⟩ : ∃ m, n = m + 1 := ⟨n - 1, by omega⟩
      obtain ⟨result, failure⟩ := ih h.tail n (by omega) (by omega)
      rw [List.flatMap_cons, List.append_assoc]
      by_cases first : g x
      · have step := manyUpTo_step (head.result first) n
        refine ⟨fun all => ?_, fun all => ?_⟩
        · rw [step, result fun y member => all y (List.mem_cons_of_mem _ member)]
          rfl
        · rw [step]
          refine resumes.tail _ _ (failure fun rest => all fun y member => ?_)
          rcases List.mem_cons.mp member with rfl | member
          · exact first
          · exact rest y member
      · refine ⟨fun all => absurd (all x List.mem_cons_self) first, fun _ => ?_⟩
        exact resumes.item _ n (head.failure first)

theorem many (h : ReadsItemsUpTo limit o item F text g value xs) (hF : F rest)
    (resumes : Resumes item o o') (stop : item (before rest) = .ok (none, before rest))
    (enough : Text.tokens (xs.flatMap text ++ rest) ≤ limit) :
    Reads o' (many item) (xs.flatMap text) (∀ x ∈ xs, g x) (xs.map value) rest := by
  obtain ⟨result, failure⟩ := h.manyUpTo hF resumes stop _ enough (Nat.lt_succ_self _)
  exact ⟨result, failure, h.fewer hF enough⟩

end ReadsItemsUpTo

theorem ReadsItems.many (h : ReadsItems o item F text g value xs) (hF : F rest)
    (resumes : Resumes item o o') (stop : item (before rest) = .ok (none, before rest)) :
    Reads o' (many item) (xs.flatMap text) (∀ x ∈ xs, g x) (xs.map value) rest :=
  (h.upTo _).many hF resumes stop (Nat.le_refl _)

/-- What is asked of the changes of a loop: each is made to every value that an invariant holds of,
and keeps it. -/
structure ReadsChanges (change : σ → Parser (Option σ)) (I : σ → Prop) (F : Text → Prop)
    (text : ι → Text) (g : ι → Prop) (step : σ → ι → σ) (xs : List ι) : Prop where
  reads : ∀ x ∈ xs, ∀ v t, I v → F t → Fares (change v) (text x) (g x) (some (step v x)) t
  keeps : ∀ x ∈ xs, ∀ v, I v → I (step v x)
  follows : ∀ x ∈ xs, ∀ t, F t → F (text x ++ t)
  nonempty : ∀ x ∈ xs, text x ≠ []

variable {change : σ → Parser (Option σ)} {I : σ → Prop} {step : σ → ι → σ}

theorem ReadsChanges.tail {x : ι} (h : ReadsChanges change I F text g step (x :: xs)) :
    ReadsChanges change I F text g step xs where
  reads y member := h.reads y (List.mem_cons_of_mem _ member)
  keeps y member := h.keeps y (List.mem_cons_of_mem _ member)
  follows y member := h.follows y (List.mem_cons_of_mem _ member)
  nonempty y member := h.nonempty y (List.mem_cons_of_mem _ member)

theorem ReadsChanges.follow (h : ReadsChanges change I F text g step xs) (hF : F rest) :
    F (xs.flatMap text ++ rest) := by
  induction xs with
  | nil => exact hF
  | cons x xs ih =>
      rw [List.flatMap_cons, List.append_assoc]
      exact h.follows x List.mem_cons_self _ (ih h.tail)

theorem repeatUpTo_idle {c : Cursor} {v : σ} (h : change v c = .ok (none, c)) (n : Nat) :
    repeatUpTo change n v c = .ok (v, c) := by
  cases n with
  | zero => rfl
  | succ n =>
      rw [repeatUpTo, bind_eq_of_ok h]
      rfl

theorem repeatUpTo_step {c c' : Cursor} {v w : σ} (h : change v c = .ok (some w, c')) (n : Nat) :
    repeatUpTo change (n + 1) v c = repeatUpTo change n w c' := by
  rw [repeatUpTo, bind_eq_of_ok h]

theorem repeatUpTo_fails {c : Cursor} {v : σ} (h : Fails (change v c)) (n : Nat) :
    Fails (repeatUpTo change (n + 1) v c) := by
  obtain ⟨e, failed⟩ := h
  rw [repeatUpTo, bind_eq_of_error failed]
  exact fails_error e

theorem ReadsChanges.repeatUpTo (h : ReadsChanges change I F text g step xs) (hF : F rest)
    (stop : ∀ v, I v → change v (before rest) = .ok (none, before rest)) (n : Nat) {v : σ} (hI : I v)
    (enough : Text.tokens (xs.flatMap text ++ rest) < n) :
    ((∀ x ∈ xs, g x) → repeatUpTo change n v (before (xs.flatMap text ++ rest)) =
      .ok (xs.foldl step v, before rest)) ∧
    (¬ (∀ x ∈ xs, g x) → Fails (repeatUpTo change n v (before (xs.flatMap text ++ rest)))) := by
  induction xs generalizing n v with
  | nil =>
      refine ⟨fun _ => ?_, fun absurdity => absurd nofun absurdity⟩
      exact repeatUpTo_idle (stop v hI) n
  | cons x xs ih =>
      have follow := h.tail.follow hF
      have head := h.reads x List.mem_cons_self v _ hI follow
      have fewer := head.fewer (h.nonempty x List.mem_cons_self)
      have kept := h.keeps x List.mem_cons_self v hI
      rw [List.flatMap_cons, List.append_assoc] at enough ⊢
      obtain ⟨n, rfl⟩ : ∃ m, n = m + 1 := ⟨n - 1, by omega⟩
      obtain ⟨result, failure⟩ := ih h.tail n kept (by omega)
      by_cases first : g x
      · rw [repeatUpTo_step (head.result first) n]
        refine ⟨fun all => ?_, fun all => ?_⟩
        · exact result fun y member => all y (List.mem_cons_of_mem _ member)
        · refine failure fun rest => all fun y member => ?_
          rcases List.mem_cons.mp member with rfl | member
          · exact first
          · exact rest y member
      · refine ⟨fun all => absurd (all x List.mem_cons_self) first, fun _ => ?_⟩
        exact repeatUpTo_fails (head.failure first) n

theorem ReadsChanges.fewer (h : ReadsChanges change I F text g step xs) (hF : F rest) {v : σ}
    (hI : I v) : xs.flatMap text ≠ [] → rest.tokens < Text.tokens (xs.flatMap text ++ rest) := by
  induction xs with
  | nil => exact fun absurdity => absurd rfl absurdity
  | cons x xs ih =>
      rw [List.flatMap_cons]
      have head := h.reads x List.mem_cons_self v _ hI (h.tail.follow hF)
      exact fewer_append head.fewer (ih h.tail)

theorem ReadsChanges.repeatFrom (h : ReadsChanges change I F text g step xs) (hF : F rest)
    (stop : ∀ v, I v → change v (before rest) = .ok (none, before rest)) {v : σ} (hI : I v) :
    Fares (repeatFrom change v) (xs.flatMap text) (∀ x ∈ xs, g x) (xs.foldl step v) rest := by
  obtain ⟨result, failure⟩ := h.repeatUpTo hF stop _ hI (Nat.lt_succ_self _)
  exact ⟨result, failure, h.fewer hF hI⟩

/-- How a chain of changes ends when the first part or one of the changes ends otherwise. -/
structure Extends (change : σ → Parser (Option σ))
    (o : Except ParseError (Option σ × Cursor) → Prop)
    (o' : Except ParseError (σ × Cursor) → Prop) : Prop where
  first : ∀ r, o' r → o' (r >>= fun (v, c) => repeatFrom change v c)
  next : ∀ n v c, o (change v c) → o' (repeatUpTo change (n + 1) v c)

theorem extends_fails (change : σ → Parser (Option σ)) : Extends change Fails Fails where
  first := by
    rintro r ⟨e, rfl⟩
    exact fails_error e
  next n _ _ h := repeatUpTo_fails h n

theorem extends_derails {change : σ → Parser (Option σ)}
    (idle : ∀ v c, AtRelation c → change v c = .ok (none, c)) :
    Extends change Derails Derails where
  first := by
    rintro r (⟨e, rfl⟩ | ⟨v, c, rfl, relation⟩)
    · exact derails_error e
    · exact .inr ⟨v, c, repeatUpTo_idle (idle v c relation) _, relation⟩
  next := by
    rintro n v c (⟨e, failed⟩ | ⟨found, c', stopped, relation⟩)
    · exact .inl (repeatUpTo_fails ⟨e, failed⟩ n)
    · cases found with
      | none =>
          refine .inr ⟨v, c', ?_, relation⟩
          rw [repeatUpTo, bind_eq_of_ok stopped]
          rfl
      | some w =>
          refine .inr ⟨w, c', ?_, relation⟩
          rw [repeatUpTo_step stopped, repeatUpTo_idle (idle w c' relation)]

/-- A chain has read a text up to a value and goes on changing it behind the text. -/
structure Gathers (o : Except ParseError (σ × Cursor) → Prop) (p : Parser σ)
    (change : σ → Parser (Option σ)) (s : Text) (g : Prop) (x : σ) (rest : Text) : Prop where
  result : g → ∃ n, rest.tokens < n ∧ p (before (s ++ rest)) = repeatUpTo change n x (before rest)
  failure : ¬ g → o (p (before (s ++ rest)))
  fewer : s ≠ [] → rest.tokens < (s ++ rest).tokens

variable {oChange : Except ParseError (Option σ × Cursor) → Prop}
  {oChain : Except ParseError (σ × Cursor) → Prop} {p : Parser σ} {s t : Text} {P Q : Prop}
  {x y : σ}

theorem Reads.gathers (h : Reads oChain p s P x rest) (ends : Extends change oChange oChain) :
    Gathers oChain (p >>= repeatFrom change) change s P x rest where
  result hP := ⟨rest.tokens + 1, Nat.lt_succ_self _, bind_eq_of_ok (h.result hP)⟩
  failure hP := ends.first _ (h.failure hP)
  fewer := h.fewer

theorem Gathers.extend (h : Gathers oChain p change s P x (t ++ rest))
    (ends : Extends change oChange oChain) (step : Reads oChange (change x) t Q (some y) rest)
    (nonempty : t ≠ []) : Gathers oChain p change (s ++ t) (P ∧ Q) y rest := by
  have fewer := step.fewer nonempty
  refine ⟨fun ⟨hP, hQ⟩ => ?_, fun hPQ => ?_, fewer_append h.fewer step.fewer⟩
  · obtain ⟨n, enough, same⟩ := h.result hP
    obtain ⟨n, rfl⟩ : ∃ m, n = m + 1 := ⟨n - 1, by omega⟩
    refine ⟨n, by omega, ?_⟩
    rw [List.append_assoc, same, repeatUpTo_step (step.result hQ)]
  · rw [List.append_assoc]
    by_cases hP : P
    · obtain ⟨n, enough, same⟩ := h.result hP
      obtain ⟨n, rfl⟩ : ∃ m, n = m + 1 := ⟨n - 1, by omega⟩
      rw [same]
      exact ends.next n x _ (step.failure fun hQ => hPQ ⟨hP, hQ⟩)
    · exact h.failure hP

theorem Gathers.stop (h : Gathers oChain p change s P x rest)
    (idle : change x (before rest) = .ok (none, before rest)) : Reads oChain p s P x rest where
  result hP := by
    obtain ⟨n, _, same⟩ := h.result hP
    rw [same, repeatUpTo_idle idle]
  failure := h.failure
  fewer := h.fewer

theorem Gathers.congr (h : Gathers oChain p change s P x rest) (same : P ↔ Q) :
    Gathers oChain p change s Q x rest :=
  ⟨fun hQ => h.result (same.mpr hQ), fun hQ => h.failure fun hP => hQ (same.mp hP), h.fewer⟩

end Loops

end SparqlMetrics.Grammar
