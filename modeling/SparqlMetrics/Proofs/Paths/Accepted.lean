import SparqlMetrics.Proofs.Paths.Sound

/-!
# The words that are read as paths

The reader of paths accepts the words of the grammar and no others: in front of a token that cannot go
on with a path, a word is read as a whole with a given tree if and only if that is the tree of a
derivation of the word, provided its IRIs resolve and its brackets nest no deeper than allowed.
`Grammar.ReadsPhrase` says how a word of each nonterminal is read; a loop that has read the left part of
a join goes on with the right one. Main statement: `Grammar.path_eq_ok_iff_derives`.
-/
namespace SparqlMetrics

theorem IsStep.ne_symbol {ns : Namespaces} {t : Token} {p : Path} (h : IsStep ns t p) (m : Symbol) :
    t.lexeme ≠ .symbol m := by
  cases h <;> nofun

/-- The marks that no word of a nonterminal opens with. -/
def PathPhrase.avoids : PathPhrase → List Symbol
  | .element => [.caret]
  | .primary => [.caret]
  | .members => [.lparen, .rparen]
  | .member => [.lparen, .rparen]
  | _ => []

theorem Derives.first {ns : Namespaces} {phrase : PathPhrase} {w : List Token} {p : Path}
    (h : Derives ns phrase w p) :
    ∃ t v, w = t :: v ∧ ∀ m ∈ phrase.avoids, t.lexeme ≠ .symbol m := by
  induction h with
  | sequence _ ih =>
      obtain ⟨t, v, same, _⟩ := ih
      exact ⟨t, v, same, List.forall_mem_nil _⟩
  | alternative _ _ _ ih _ =>
      obtain ⟨t, v, rfl, _⟩ := ih
      exact ⟨t, _, rfl, List.forall_mem_nil _⟩
  | part _ ih =>
      obtain ⟨t, v, same, _⟩ := ih
      exact ⟨t, v, same, List.forall_mem_nil _⟩
  | followed _ _ _ ih _ =>
      obtain ⟨t, v, rfl, _⟩ := ih
      exact ⟨t, _, rfl, List.forall_mem_nil _⟩
  | element _ ih =>
      obtain ⟨t, v, same, _⟩ := ih
      exact ⟨t, v, same, List.forall_mem_nil _⟩
  | inverse _ _ _ => exact ⟨_, _, rfl, List.forall_mem_nil _⟩
  | primary _ ih => exact ih
  | repeated _ _ _ ih =>
      obtain ⟨t, v, rfl, avoids⟩ := ih
      exact ⟨t, _, rfl, avoids⟩
  | step isStep => exact ⟨_, _, rfl, fun m _ => isStep.ne_symbol m⟩
  | negatedMember bang _ _ => exact ⟨_, _, rfl, by simp [PathPhrase.avoids, bang]⟩
  | negatedNone bang _ _ => exact ⟨_, _, rfl, by simp [PathPhrase.avoids, bang]⟩
  | negatedMembers bang _ _ _ _ => exact ⟨_, _, rfl, by simp [PathPhrase.avoids, bang]⟩
  | group opening _ _ _ => exact ⟨_, _, rfl, by simp [PathPhrase.avoids, opening]⟩
  | oneMember _ ih => exact ih
  | moreMembers _ _ _ ih _ =>
      obtain ⟨t, v, rfl, avoids⟩ := ih
      exact ⟨t, _, rfl, avoids⟩
  | forward isStep => exact ⟨_, _, rfl, fun m _ => isStep.ne_symbol m⟩
  | backward caret _ => exact ⟨_, _, rfl, by simp [PathPhrase.avoids, caret]⟩

namespace Grammar

open SparqlMetrics.Parser TwoRuns

section Marks
variable {α : Type} {t : Token} {ts : List Token} {last : Token} {count : Nat} {m : Symbol}

theorem tryMark_here (h : t.lexeme = .symbol m) :
    tryMark m ⟨t :: ts, last, count⟩ = .ok (true, ⟨ts, last, count⟩) := by
  have here : isAt m ⟨t :: ts, last, count⟩ = .ok (true, ⟨t :: ts, last, count⟩) := by
    show Except.ok (t.lexeme == .symbol m, _) = _
    rw [beq_iff_eq.mpr h]
  exact bind_eq_of_ok here

theorem tryMark_other {c : Cursor} (h : c.token.lexeme ≠ .symbol m) :
    tryMark m c = .ok (false, c) := by
  have here : isAt m c = .ok (false, c) := by
    show Except.ok (c.token.lexeme == .symbol m, c) = _
    rw [beq_eq_false_iff_ne.mpr h]
  exact bind_eq_of_ok here

theorem mark_here (h : t.lexeme = .symbol m) (e : Expectation) :
    mark m e ⟨t :: ts, last, count⟩ = .ok ((), ⟨ts, last, count⟩) := by
  have here : lexeme ⟨t :: ts, last, count⟩ = .ok (t.lexeme, ⟨t :: ts, last, count⟩) := rfl
  rw [mark, bind_eq_of_ok here, if_pos (beq_iff_eq.mpr h)]
  rfl

end Marks

/-- A loop whose rounds pass over words shrinks what is ahead. -/
theorem shrinks_of_consumes {σ : Type} {change : σ → Parser (Option σ)}
    (h : ∀ v, Consumes (change v) fun w found => found.isSome = true → w ≠ []) :
    Shrinks change := by
  intro v c v' c' last read
  obtain ⟨w, passed, nonempty⟩ := h v c _ c' last read
  constructor
  · have length := congrArg List.length passed.ahead
    have positive := List.length_pos_of_ne_nil (nonempty rfl)
    rw [List.length_append] at length
    omega
  · exact passed.last

section Joins
variable {m : Symbol} {how : PathJoin} {part : Parser Path} {P : List Token → Path → Prop}
  {bar last : Token} {v rest : List Token} {count : Nat} {left right : Path}

theorem shrinks_joinAfter (hp : Consumes part P) : Shrinks (joinAfter m how part) := by
  apply shrinks_of_consumes
  intro left
  apply consumes_tryMark
  · intro t _
    apply hp.bind
    intro w right _
    exact consumes_pure fun _ => List.cons_ne_nil _ _
  · exact consumes_pure nofun

/-- A loop goes on with a mark and the part behind it. -/
theorem repeatFrom_joinAfter (hp : Consumes part P) (last_terminal : last.lexeme.isTerminal = true)
    (isMark : bar.lexeme = .symbol m)
    (read : part ⟨v ++ rest, last, count⟩ = .ok (right, ⟨rest, last, count⟩)) :
    repeatFrom (joinAfter m how part) left ⟨bar :: v ++ rest, last, count⟩ =
      repeatFrom (joinAfter m how part) (.join how left right) ⟨rest, last, count⟩ := by
  apply repeatFrom_eq_of_step (shrinks_joinAfter hp) last_terminal
  have found : tryMark m ⟨bar :: (v ++ rest), last, count⟩ = .ok (true, ⟨v ++ rest, last, count⟩) :=
    tryMark_here isMark
  rw [joinAfter, List.cons_append, bind_eq_of_ok found]
  exact bind_eq_of_ok read

/-- A loop ends where its mark does not follow. -/
theorem repeatFrom_ends {c : Cursor} (other : c.token.lexeme ≠ .symbol m) :
    repeatFrom (joinAfter m how part) left c = .ok (left, c) := by
  have noJoin : joinAfter m how part left c = .ok (none, c) := bind_eq_of_ok (tryMark_other other)
  show repeatUpTo _ (c.ahead.length + 1) left c = _
  rw [repeatUpTo, bind_eq_of_ok noJoin]
  rfl

end Joins

section Completeness
variable {ns : Namespaces} {last : Token} {count n : Nat} {w u v rest : List Token}
  {p left right : Path}

/-- The lexeme in front of some tokens and the last one. -/
def nextLexeme (last : Token) (rest : List Token) : Lexeme := (rest.headD last).lexeme

/-- How a word of a nonterminal is read in front of a token that does not go on with it. A word of
joined parts is read up to the round of the loop that would join the next part. -/
def ReadsPhrase (ns : Namespaces) (last : Token) (count n : Nat) (w : List Token) (p : Path)
    (rest : List Token) : PathPhrase → Prop
  | .path => repetition? (nextLexeme last rest) = none → nextLexeme last rest ≠ .symbol .slash →
    path (Level.ofAllowance ns n) ⟨w ++ rest, last, count⟩ =
      repeatFrom (joinAfter .pipe .alternative (pathSequence (Level.ofAllowance ns n))) p
        ⟨rest, last, count⟩
  | .sequence => repetition? (nextLexeme last rest) = none →
    pathSequence (Level.ofAllowance ns n) ⟨w ++ rest, last, count⟩ =
      repeatFrom (joinAfter .slash .sequence (pathPart (Level.ofAllowance ns n))) p
        ⟨rest, last, count⟩
  | .elementOrInverse => repetition? (nextLexeme last rest) = none →
    pathPart (Level.ofAllowance ns n) ⟨w ++ rest, last, count⟩ = .ok (p, ⟨rest, last, count⟩)
  | .element => repetition? (nextLexeme last rest) = none →
    pathElement (Level.ofAllowance ns n) ⟨w ++ rest, last, count⟩ = .ok (p, ⟨rest, last, count⟩)
  | .primary =>
    pathPrimary (Level.ofAllowance ns n) ⟨w ++ rest, last, count⟩ = .ok (p, ⟨rest, last, count⟩)
  | .members => (setMember ns >>= repeatFrom (joinAfter .pipe .alternative (setMember ns)))
    ⟨w ++ rest, last, count⟩ =
      repeatFrom (joinAfter .pipe .alternative (setMember ns)) p ⟨rest, last, count⟩
  | .member => setMember ns ⟨w ++ rest, last, count⟩ = .ok (p, ⟨rest, last, count⟩)

theorem readsPhrase_sequence (h : ReadsPhrase ns last count n w p rest .sequence) :
    ReadsPhrase ns last count n w p rest .path := by
  intro unmarked noSlash
  have first := (h unmarked).trans (repeatFrom_ends noSlash)
  exact bind_eq_of_ok first

theorem readsPhrase_alternative (terminal : last.lexeme.isTerminal = true) {bar : Token}
    (isBar : bar.lexeme = .symbol .pipe)
    (hu : ReadsPhrase ns last count n u left (bar :: v ++ rest) .path)
    (hv : ReadsPhrase ns last count n v right rest .sequence) :
    ReadsPhrase ns last count n (u ++ bar :: v) (.join .alternative left right) rest .path := by
  intro unmarked noSlash
  have next : nextLexeme last (bar :: v ++ rest) = .symbol .pipe := isBar
  have read := (hv unmarked).trans (repeatFrom_ends noSlash)
  rw [List.append_assoc, hu (by rw [next]; rfl) (by rw [next]; nofun)]
  exact repeatFrom_joinAfter (consumes_pathSequence (derivesGroups_ofAllowance ns n)) terminal isBar
    read

theorem readsPhrase_part (h : ReadsPhrase ns last count n w p rest .elementOrInverse) :
    ReadsPhrase ns last count n w p rest .sequence :=
  fun unmarked => bind_eq_of_ok (h unmarked)

theorem readsPhrase_followed (terminal : last.lexeme.isTerminal = true) {slash : Token}
    (isSlash : slash.lexeme = .symbol .slash)
    (hu : ReadsPhrase ns last count n u left (slash :: v ++ rest) .sequence)
    (hv : ReadsPhrase ns last count n v right rest .elementOrInverse) :
    ReadsPhrase ns last count n (u ++ slash :: v) (.join .sequence left right) rest .sequence := by
  intro unmarked
  have next : nextLexeme last (slash :: v ++ rest) = .symbol .slash := isSlash
  rw [List.append_assoc, hu (by rw [next]; rfl)]
  exact repeatFrom_joinAfter (consumes_pathPart (derivesGroups_ofAllowance ns n)) terminal isSlash
    (hv unmarked)

theorem readsPhrase_element (derives : Derives ns .element w p)
    (h : ReadsPhrase ns last count n w p rest .element) :
    ReadsPhrase ns last count n w p rest .elementOrInverse := by
  intro unmarked
  obtain ⟨t, v, rfl, avoids⟩ := derives.first
  have other : tryMark .caret ⟨t :: v ++ rest, last, count⟩ = .ok (false, _) :=
    tryMark_other (avoids .caret (List.mem_singleton_self _))
  exact (bind_eq_of_ok other).trans (h unmarked)

theorem readsPhrase_inverse {caret : Token} (isCaret : caret.lexeme = .symbol .caret)
    (h : ReadsPhrase ns last count n w p rest .element) :
    ReadsPhrase ns last count n (caret :: w) (.inverse p) rest .elementOrInverse := by
  intro unmarked
  have here : tryMark .caret ⟨caret :: w ++ rest, last, count⟩ = .ok (true, _) := tryMark_here isCaret
  have inner : (Path.inverse <$> pathElement (Level.ofAllowance ns n)) ⟨w ++ rest, last, count⟩ =
      .ok (.inverse p, ⟨rest, last, count⟩) := by
    rw [← bind_pure_comp, bind_eq_of_ok (h unmarked)]
    rfl
  exact (bind_eq_of_ok here).trans inner

theorem readsPhrase_primary (h : ReadsPhrase ns last count n w p rest .primary) :
    ReadsPhrase ns last count n w p rest .element := by
  intro unmarked
  have here : lexeme ⟨rest, last, count⟩ = .ok (nextLexeme last rest, ⟨rest, last, count⟩) := rfl
  rw [pathElement, bind_eq_of_ok h, bind_eq_of_ok here, unmarked]
  rfl

theorem readsPhrase_repeated {mark : Token} {m : Symbol} {times : Repetition}
    (isMark : mark.lexeme = .symbol m) (mod : IsPathMod m times)
    (h : ReadsPhrase ns last count n w p (mark :: rest) .primary) :
    ReadsPhrase ns last count n (w ++ [mark]) (.repeated times p) rest .element := by
  intro _
  have marked : repetition? mark.lexeme = some times := by
    rw [isMark]
    cases mod <;> rfl
  have here : lexeme ⟨mark :: rest, last, count⟩ = .ok (mark.lexeme, ⟨mark :: rest, last, count⟩) :=
    rfl
  rw [List.append_assoc, List.singleton_append, pathElement, bind_eq_of_ok h, bind_eq_of_ok here,
    marked]
  rfl

theorem readsPhrase_step {t : Token} (isStep : IsStep ns t p) (resolves : t.lexeme.Resolves ns) :
    ReadsPhrase ns last count n [t] p rest .primary := by
  have read : iriStep ns ⟨t :: rest, last, count⟩ = .ok (p, ⟨rest, last, count⟩) :=
    iriStep_of_isStep (c := ⟨t :: rest, last, count⟩) isStep resolves
  have here : lexeme ⟨t :: rest, last, count⟩ = .ok (t.lexeme, ⟨t :: rest, last, count⟩) := rfl
  show pathPrimary _ ⟨t :: rest, last, count⟩ = _
  rw [pathPrimary, bind_eq_of_ok here, (derivesGroups_ofAllowance ns n).namespaces]
  cases isStep with
  | reference => exact read
  | name => exact read
  | typeWord =>
      have word : (Lexeme.identifier (utf8 "a")).isTypeWord = true := by decide
      dsimp only
      rw [if_pos word]
      exact read

/-- Behind an exclamation mark a primary path is a negated set. -/
theorem pathPrimary_bang {bang : Token} (isBang : bang.lexeme = .symbol .bang) :
    pathPrimary (Level.ofAllowance ns n) ⟨bang :: rest, last, count⟩ =
      negatedSet ns ⟨rest, last, count⟩ := by
  have here : lexeme ⟨bang :: rest, last, count⟩ =
      .ok (.symbol .bang, ⟨bang :: rest, last, count⟩) := isBang ▸ rfl
  rw [pathPrimary, bind_eq_of_ok here, (derivesGroups_ofAllowance ns n).namespaces]
  rfl

theorem readsPhrase_negatedMember {bang : Token} (isBang : bang.lexeme = .symbol .bang)
    (derives : Derives ns .member w p) (h : ReadsPhrase ns last count n w p rest .member) :
    ReadsPhrase ns last count n (bang :: w) (.negated p) rest .primary := by
  obtain ⟨t, v, rfl, avoids⟩ := derives.first
  have other : tryMark .lparen ⟨t :: v ++ rest, last, count⟩ = .ok (false, _) :=
    tryMark_other (avoids .lparen List.mem_cons_self)
  have inner : (Path.negated <$> setMember ns) ⟨t :: v ++ rest, last, count⟩ =
      .ok (.negated p, ⟨rest, last, count⟩) := by
    rw [← bind_pure_comp, bind_eq_of_ok h]
    rfl
  exact (pathPrimary_bang isBang).trans ((bind_eq_of_ok other).trans inner)

/-- The members of a negated set and its closing bracket. -/
theorem negatedSet_bracketed {opening closing : Token} (isOpening : opening.lexeme = .symbol .lparen)
    (isClosing : closing.lexeme = .symbol .rparen)
    (members : setMembers ns ⟨w ++ closing :: rest, last, count⟩ =
      .ok (p, ⟨closing :: rest, last, count⟩)) :
    negatedSet ns ⟨opening :: (w ++ closing :: rest), last, count⟩ =
      .ok (.negated p, ⟨rest, last, count⟩) := by
  have here : tryMark .lparen ⟨opening :: (w ++ closing :: rest), last, count⟩ = .ok (true, _) :=
    tryMark_here isOpening
  have close : mark .rparen .closeNegatedSet ⟨closing :: rest, last, count⟩ =
      .ok ((), ⟨rest, last, count⟩) := mark_here isClosing _
  have inner : (setMembers ns >>= fun members => mark .rparen .closeNegatedSet >>= fun _ =>
      pure (Path.negated members)) ⟨w ++ closing :: rest, last, count⟩ =
        .ok (.negated p, ⟨rest, last, count⟩) := by
    rw [bind_eq_of_ok members, bind_eq_of_ok close]
    rfl
  exact (bind_eq_of_ok here).trans inner

theorem readsPhrase_negatedNone {bang opening closing : Token} (isBang : bang.lexeme = .symbol .bang)
    (isOpening : opening.lexeme = .symbol .lparen) (isClosing : closing.lexeme = .symbol .rparen) :
    ReadsPhrase ns last count n [bang, opening, closing] (.negated .placeholder) rest .primary := by
  have noMembers : setMembers ns ⟨closing :: rest, last, count⟩ =
      .ok (.placeholder, ⟨closing :: rest, last, count⟩) := by
    have here : isAt .rparen ⟨closing :: rest, last, count⟩ =
        .ok (true, ⟨closing :: rest, last, count⟩) := by
      show Except.ok (closing.lexeme == .symbol .rparen, _) = _
      rw [beq_iff_eq.mpr isClosing]
    exact bind_eq_of_ok here
  exact (pathPrimary_bang isBang).trans (negatedSet_bracketed (w := []) isOpening isClosing noMembers)

theorem readsPhrase_negatedMembers {bang opening closing : Token}
    (isBang : bang.lexeme = .symbol .bang) (isOpening : opening.lexeme = .symbol .lparen)
    (isClosing : closing.lexeme = .symbol .rparen) (derives : Derives ns .members w p)
    (h : ReadsPhrase ns last count n w p (closing :: rest) .members) :
    ReadsPhrase ns last count n (bang :: opening :: (w ++ [closing])) (.negated p) rest
      .primary := by
  have members : setMembers ns ⟨w ++ closing :: rest, last, count⟩ =
      .ok (p, ⟨closing :: rest, last, count⟩) := by
    obtain ⟨t, v, rfl, avoids⟩ := derives.first
    have here : isAt .rparen ⟨t :: v ++ closing :: rest, last, count⟩ =
        .ok (false, ⟨t :: v ++ closing :: rest, last, count⟩) := by
      show Except.ok (t.lexeme == .symbol .rparen, _) = _
      rw [beq_eq_false_iff_ne.mpr (avoids .rparen (List.mem_cons_of_mem _ List.mem_cons_self))]
    have noBar : closing.lexeme ≠ .symbol .pipe := isClosing ▸ nofun
    have loop := h.trans (repeatFrom_ends (c := ⟨closing :: rest, last, count⟩) noBar)
    exact (bind_eq_of_ok here).trans loop
  have read := (pathPrimary_bang (n := n) isBang).trans
    (negatedSet_bracketed isOpening isClosing members)
  have word : bang :: opening :: (w ++ [closing]) ++ rest =
      bang :: opening :: (w ++ closing :: rest) := by simp
  show pathPrimary _ ⟨bang :: opening :: (w ++ [closing]) ++ rest, last, count⟩ = _
  rw [word]
  exact read

theorem readsPhrase_group {opening closing : Token} (isOpening : opening.lexeme = .symbol .lparen)
    (isClosing : closing.lexeme = .symbol .rparen)
    (h : ReadsPhrase ns last count n w p (closing :: rest) .path) :
    ReadsPhrase ns last count (n + 1) (opening :: (w ++ [closing])) p rest .primary := by
  have next : nextLexeme last (closing :: rest) = .symbol .rparen := isClosing
  have noBar : closing.lexeme ≠ .symbol .pipe := isClosing ▸ nofun
  have inside := (h (by rw [next]; rfl) (by rw [next]; nofun)).trans
    (repeatFrom_ends (c := ⟨closing :: rest, last, count⟩) noBar)
  have close : mark .rparen .closePathGroup ⟨closing :: rest, last, count⟩ =
      .ok ((), ⟨rest, last, count⟩) := mark_here isClosing _
  have here : lexeme ⟨opening :: (w ++ closing :: rest), last, count⟩ =
      .ok (.symbol .lparen, ⟨opening :: (w ++ closing :: rest), last, count⟩) := isOpening ▸ rfl
  have passed : skip ⟨opening :: (w ++ closing :: rest), last, count⟩ =
      .ok ((), ⟨w ++ closing :: rest, last, count⟩) := rfl
  have word : opening :: (w ++ [closing]) ++ rest = opening :: (w ++ closing :: rest) := by simp
  show pathPrimary _ ⟨opening :: (w ++ [closing]) ++ rest, last, count⟩ = _
  rw [word, pathPrimary, bind_eq_of_ok here]
  show bracketedPath (Level.ofAllowance ns n) _ = _
  rw [bracketedPath, bind_eq_of_ok passed, bind_eq_of_ok inside, bind_eq_of_ok close]
  rfl

theorem readsPhrase_moreMembers (terminal : last.lexeme.isTerminal = true) {bar : Token}
    (isBar : bar.lexeme = .symbol .pipe)
    (hu : ReadsPhrase ns last count n u left (bar :: v ++ rest) .members)
    (hv : ReadsPhrase ns last count n v right rest .member) :
    ReadsPhrase ns last count n (u ++ bar :: v) (.join .alternative left right) rest .members := by
  show (setMember ns >>= repeatFrom _) ⟨u ++ bar :: v ++ rest, last, count⟩ = _
  rw [List.append_assoc]
  exact hu.trans (repeatFrom_joinAfter consumes_setMember terminal isBar hv)

theorem readsPhrase_forward {t : Token} (isStep : IsStep ns t p) (resolves : t.lexeme.Resolves ns) :
    ReadsPhrase ns last count n [t] p rest .member := by
  have other : tryMark .caret ⟨t :: rest, last, count⟩ = .ok (false, _) :=
    tryMark_other (isStep.ne_symbol .caret)
  exact (bind_eq_of_ok other).trans
    (iriStep_of_isStep (c := ⟨t :: rest, last, count⟩) isStep resolves)

theorem readsPhrase_backward {caret t : Token} (isCaret : caret.lexeme = .symbol .caret)
    (isStep : IsStep ns t p) (resolves : t.lexeme.Resolves ns) :
    ReadsPhrase ns last count n [caret, t] (.inverse p) rest .member := by
  have here : tryMark .caret ⟨caret :: t :: rest, last, count⟩ = .ok (true, _) := tryMark_here isCaret
  have inner : (Path.inverse <$> iriStep ns) ⟨t :: rest, last, count⟩ =
      .ok (.inverse p, ⟨rest, last, count⟩) := by
    rw [← bind_pure_comp,
      bind_eq_of_ok (iriStep_of_isStep (c := ⟨t :: rest, last, count⟩) isStep resolves)]
    rfl
  exact (bind_eq_of_ok here).trans inner

/-- Whether the IRIs of a word resolve, and inside some brackets it nests no deeper than allowed. -/
structure IsAdmitted (ns : Namespaces) (k n : Nat) (w : List Token) : Prop where
  resolves : ∀ t ∈ w, t.lexeme.Resolves ns
  shallow : bracketDepth k w ≤ k + n

namespace IsAdmitted

variable {k : Nat} {t : Token}

/-- The parts around a token that is no bracket. -/
theorem parts {phrase : PathPhrase} (h : IsAdmitted ns k n (u ++ t :: v))
    (derives : Derives ns phrase u p) (flat : t.bracketsBehind k = k) :
    IsAdmitted ns k n u ∧ IsAdmitted ns k n v := by
  have shallow := h.shallow
  have resolves := h.resolves
  rw [bracketDepth_append, derives.balanced, bracketDepth, flat] at shallow
  rw [List.forall_mem_append, List.forall_mem_cons] at resolves
  exact ⟨⟨resolves.1, by omega⟩, resolves.2.2, by omega⟩

theorem behind (h : IsAdmitted ns k n (t :: w)) {m : Symbol} (isMark : t.lexeme = .symbol m)
    (opens : m ≠ .lparen) (closes : m ≠ .rparen) : IsAdmitted ns k n w := by
  have shallow := h.shallow
  rw [bracketDepth, Token.bracketsBehind_other isMark opens closes] at shallow
  exact ⟨(List.forall_mem_cons.mp h.resolves).2, by omega⟩

/-- A word between brackets nests one deeper, so at least one nesting is allowed. -/
theorem inside {opening closing : Token} (h : IsAdmitted ns k n (opening :: (w ++ [closing])))
    (isOpening : opening.lexeme = .symbol .lparen) :
    ∃ m, n = m + 1 ∧ IsAdmitted ns (k + 1) m w := by
  have shallow := h.shallow
  have resolves := h.resolves
  rw [List.forall_mem_cons, List.forall_mem_append] at resolves
  rw [bracketDepth, Token.bracketsBehind_opening isOpening, bracketDepth_append] at shallow
  have deeper := le_bracketDepth (k + 1) w
  refine ⟨n - 1, by omega, resolves.2.1, by omega⟩

end IsAdmitted

/-- Every word of the grammar is read where its brackets nest no deeper than allowed. -/
theorem readsPhrase_of_derives (terminal : last.lexeme.isTerminal = true) {phrase : PathPhrase}
    (h : Derives ns phrase w p) : ∀ (k n : Nat) (rest : List Token), IsAdmitted ns k n w →
      ReadsPhrase ns last count n w p rest phrase := by
  induction h with
  | sequence _ ih =>
      intro k n rest admitted
      exact readsPhrase_sequence (ih k n rest admitted)
  | alternative left bar _ ihLeft ihRight =>
      intro k n rest admitted
      obtain ⟨inLeft, inRight⟩ :=
        admitted.parts left (Token.bracketsBehind_other bar nofun nofun k)
      exact readsPhrase_alternative terminal bar (ihLeft k n _ inLeft) (ihRight k n rest inRight)
  | part _ ih =>
      intro k n rest admitted
      exact readsPhrase_part (ih k n rest admitted)
  | followed left slash _ ihLeft ihRight =>
      intro k n rest admitted
      obtain ⟨inLeft, inRight⟩ :=
        admitted.parts left (Token.bracketsBehind_other slash nofun nofun k)
      exact readsPhrase_followed terminal slash (ihLeft k n _ inLeft) (ihRight k n rest inRight)
  | element derives ih =>
      intro k n rest admitted
      exact readsPhrase_element derives (ih k n rest admitted)
  | inverse caret _ ih =>
      intro k n rest admitted
      exact readsPhrase_inverse caret (ih k n rest (admitted.behind caret nofun nofun))
  | primary _ ih =>
      intro k n rest admitted
      exact readsPhrase_primary (ih k n rest admitted)
  | repeated derives isMark mod ih =>
      intro k n rest admitted
      have inner := (admitted.parts derives (mod.bracketsBehind isMark k)).1
      exact readsPhrase_repeated isMark mod (ih k n _ inner)
  | step isStep =>
      intro k n rest admitted
      exact readsPhrase_step isStep (admitted.resolves _ List.mem_cons_self)
  | negatedMember bang derives ih =>
      intro k n rest admitted
      have inner := admitted.behind bang nofun nofun
      exact readsPhrase_negatedMember bang derives (ih k n rest inner)
  | negatedNone bang opening closing =>
      intro k n rest _
      exact readsPhrase_negatedNone bang opening closing
  | negatedMembers bang opening derives closing ih =>
      intro k n rest admitted
      obtain ⟨m, rfl, inner⟩ := (admitted.behind bang nofun nofun).inside opening
      exact readsPhrase_negatedMembers bang opening closing derives (ih (k + 1) m _ inner)
  | group opening derives closing ih =>
      intro k n rest admitted
      obtain ⟨m, rfl, inner⟩ := admitted.inside opening
      exact readsPhrase_group opening closing (ih (k + 1) m _ inner)
  | oneMember _ ih =>
      intro k n rest admitted
      exact bind_eq_of_ok (ih k n rest admitted)
  | moreMembers left bar _ ihLeft ihRight =>
      intro k n rest admitted
      obtain ⟨inLeft, inRight⟩ :=
        admitted.parts left (Token.bracketsBehind_other bar nofun nofun k)
      exact readsPhrase_moreMembers terminal bar (ihLeft k n _ inLeft) (ihRight k n rest inRight)
  | forward isStep =>
      intro k n rest admitted
      exact readsPhrase_forward isStep (admitted.resolves _ List.mem_cons_self)
  | backward caret isStep =>
      intro k n rest admitted
      have inner : IsAdmitted ns k n [_] := admitted.behind caret nofun nofun
      exact readsPhrase_backward caret isStep (inner.resolves _ List.mem_cons_self)

end Completeness

/-- The marks that go on with a path that is read. -/
def pathMarks : List Symbol := [.slash, .pipe, .star, .plus, .question]

theorem repetition?_of_not_mem {l : Lexeme} (h : ∀ m ∈ pathMarks, l ≠ .symbol m) :
    repetition? l = none := by
  cases marked : repetition? l with
  | none => rfl
  | some times =>
      obtain ⟨m, rfl, mod⟩ := isPathMod_of_repetition? marked
      cases mod <;> exact absurd rfl (h _ (by decide))

/-- Within the nesting that is allowed, a word whose IRIs resolve is read as a whole, in front of a
token that does not go on with it, if and only if it derives from the grammar of paths, and then as
the tree of its derivation. Whatever else is read as a path is a word that derives from the grammar,
with its tree. -/
theorem path_eq_ok_iff_derives (ns : Namespaces) (n : Nat) :
    (∀ (w rest : List Token) (last : Token) (count : Nat), last.lexeme.isTerminal = true →
      (∀ t ∈ w, t.lexeme.Resolves ns) → bracketDepth 0 w ≤ n →
      (∀ m ∈ pathMarks, (rest.headD last).lexeme ≠ .symbol m) →
      ∀ p, path (Level.ofAllowance ns n) ⟨w ++ rest, last, count⟩ = .ok (p, ⟨rest, last, count⟩) ↔
        Derives ns .path w p) ∧
    ∀ (c : Cursor) (p : Path) (c' : Cursor), c.last.lexeme.isTerminal = true →
      path (Level.ofAllowance ns n) c = .ok (p, c') → ∃ w, c.Passed w c' ∧ Derives ns .path w p := by
  have sound : Consumes (path (Level.ofAllowance ns n)) (Derives ns .path) :=
    consumes_path (derivesGroups_ofAllowance ns n)
  constructor
  · intro w rest last count terminal resolves shallow next p
    constructor
    · intro read
      obtain ⟨w', passed, derives⟩ := sound _ p _ terminal read
      have same : w = w' := List.append_cancel_right passed.ahead
      exact same ▸ derives
    · intro derives
      have admitted : IsAdmitted ns 0 n w := ⟨resolves, by omega⟩
      have reads : ReadsPhrase ns last count n w p rest .path :=
        readsPhrase_of_derives terminal derives 0 n rest admitted
      have loop := reads (repetition?_of_not_mem next) (next .slash (by decide))
      exact loop.trans (repeatFrom_ends (next .pipe (by decide)))
  · exact sound

/-- The tokens of `(a|^<urn:p>)*`. -/
def repeatedGroup : List Token := [⟨.symbol .lparen, 0, 1⟩, ⟨.identifier (utf8 "a"), 1, 2⟩,
  ⟨.symbol .pipe, 2, 3⟩, ⟨.symbol .caret, 3, 4⟩, ⟨.iri (utf8 "urn:p"), 4, 11⟩,
  ⟨.symbol .rparen, 11, 12⟩, ⟨.symbol .star, 12, 13⟩]

/-- The path that they spell. -/
def repeatedGroupPath : Path :=
  .repeated .zeroOrMore (.join .alternative (.step ⟨.iri Iri.rdfType, ⟨1, 2⟩⟩)
    (.inverse (.step ⟨.iri (utf8 "urn:p"), ⟨4, 11⟩⟩)))

/-- A repeated group of alternatives is read where one bracket may nest, so it derives from the grammar
of paths; and so does the word that is passed over in reading it. -/
theorem derives_repeatedGroup :
    Derives {} .path repeatedGroup repeatedGroupPath ∧
      ∃ w, Cursor.Passed ⟨repeatedGroup, ⟨.endOfInput, 13, 13⟩, 0⟩ w ⟨[], ⟨.endOfInput, 13, 13⟩, 0⟩ ∧
        Derives {} .path w repeatedGroupPath := by
  have read : path (Level.ofAllowance {} 1) ⟨repeatedGroup ++ [], ⟨.endOfInput, 13, 13⟩, 0⟩ =
      .ok (repeatedGroupPath, ⟨[], ⟨.endOfInput, 13, 13⟩, 0⟩) := by
    set_option maxRecDepth 100000 in with_unfolding_all rfl
  have resolves : ∀ t ∈ repeatedGroup, t.lexeme.Resolves {} := by
    simp [repeatedGroup, Lexeme.Resolves, Namespaces.resolve?]
    decide
  obtain ⟨accepted, sound⟩ := path_eq_ok_iff_derives {} 1
  constructor
  · exact (accepted repeatedGroup [] ⟨.endOfInput, 13, 13⟩ 0 rfl resolves (by decide)
      (by decide) _).mp read
  · exact sound _ _ _ rfl read

end Grammar

end SparqlMetrics
