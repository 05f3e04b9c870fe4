import SparqlMetrics.Grammar.Path

/-!
# The grammar of property paths as derivations

The productions of SPARQL 1.1 for paths, over words of tokens, each with the tree of its derivation.
Sequences and alternatives are derived from the left, so their trees are left-deep. A step has the IRI
that its token resolves to; a token that resolves to none is still a step. The brackets of a derived
word are balanced.
-/
namespace SparqlMetrics

/-- The depth of brackets behind a token, from the one in front of it. -/
def Token.bracketsBehind (k : Nat) (t : Token) : Nat :=
  match t.lexeme with
  | .symbol .lparen => k + 1
  | .symbol .rparen => k - 1
  | _ => k

/-- The greatest depth of brackets in a word, from the one in front of it. -/
def bracketDepth (k : Nat) : List Token → Nat
  | [] => k
  | t :: w => max k (bracketDepth (t.bracketsBehind k) w)

/-- The depth of brackets behind a word, from the one in front of it. -/
def bracketsBehind (k : Nat) (w : List Token) : Nat := w.foldl Token.bracketsBehind k

theorem le_bracketDepth (k : Nat) (w : List Token) : k ≤ bracketDepth k w := by
  cases w with
  | nil => exact Nat.le_refl k
  | cons t w => exact Nat.le_max_left _ _

theorem bracketDepth_append (k : Nat) (u v : List Token) :
    bracketDepth k (u ++ v) = max (bracketDepth k u) (bracketDepth (bracketsBehind k u) v) := by
  induction u generalizing k with
  | nil =>
      have le := le_bracketDepth k v
      simp only [List.nil_append, bracketDepth, bracketsBehind, List.foldl_nil]
      omega
  | cons t u ih =>
      have same : bracketsBehind k (t :: u) = bracketsBehind (t.bracketsBehind k) u := rfl
      rw [List.cons_append, bracketDepth, bracketDepth, ih, same, Nat.max_assoc]

theorem bracketsBehind_append (k : Nat) (u v : List Token) :
    bracketsBehind k (u ++ v) = bracketsBehind (bracketsBehind k u) v :=
  List.foldl_append

/-- A token that is a step of a path, with that step: an IRI or the word for the type property. -/
inductive IsStep (ns : Namespaces) : Token → Path → Prop
  | reference {reference : Text} {start stop : Nat} :
      IsStep ns ⟨.iri reference, start, stop⟩
        (.step ⟨.iri ((ns.resolve? reference).getD []), ⟨start, stop⟩⟩)
  | name {label localName : Text} {start stop : Nat} :
      IsStep ns ⟨.prefixedName label localName, start, stop⟩
        (.step ⟨.iri ((ns.expand? label localName).getD []), ⟨start, stop⟩⟩)
  | typeWord {start stop : Nat} :
      IsStep ns ⟨.identifier (utf8 "a"), start, stop⟩ (.step ⟨.iri Iri.rdfType, ⟨start, stop⟩⟩)

/-- A mark behind a primary path, with the repetition it stands for. -/
inductive IsPathMod : Symbol → Repetition → Prop
  | star : IsPathMod .star .zeroOrMore
  | plus : IsPathMod .plus .oneOrMore
  | question : IsPathMod .question .zeroOrOne

inductive PathPhrase where
  | path | sequence | elementOrInverse | element | primary | members | member

/-- The words that derive from a nonterminal, with the trees of their derivations. -/
inductive Derives (ns : Namespaces) : PathPhrase → List Token → Path → Prop
  | sequence {w : List Token} {p : Path} : Derives ns .sequence w p → Derives ns .path w p
  | alternative {u v : List Token} {bar : Token} {left right : Path} : Derives ns .path u left →
      bar.lexeme = .symbol .pipe → Derives ns .sequence v right →
      Derives ns .path (u ++ bar :: v) (.join .alternative left right)
  | part {w : List Token} {p : Path} : Derives ns .elementOrInverse w p → Derives ns .sequence w p
  | followed {u v : List Token} {slash : Token} {left right : Path} : Derives ns .sequence u left →
      slash.lexeme = .symbol .slash → Derives ns .elementOrInverse v right →
      Derives ns .sequence (u ++ slash :: v) (.join .sequence left right)
  | element {w : List Token} {p : Path} : Derives ns .element w p → Derives ns .elementOrInverse w p
  | inverse {w : List Token} {caret : Token} {p : Path} : caret.lexeme = .symbol .caret →
      Derives ns .element w p → Derives ns .elementOrInverse (caret :: w) (.inverse p)
  | primary {w : List Token} {p : Path} : Derives ns .primary w p → Derives ns .element w p
  | repeated {w : List Token} {mark : Token} {m : Symbol} {times : Repetition} {p : Path} :
      Derives ns .primary w p → mark.lexeme = .symbol m → IsPathMod m times →
      Derives ns .element (w ++ [mark]) (.repeated times p)
  | step {t : Token} {p : Path} : IsStep ns t p → Derives ns .primary [t] p
  | negatedMember {w : List Token} {bang : Token} {p : Path} : bang.lexeme = .symbol .bang →
      Derives ns .member w p → Derives ns .primary (bang :: w) (.negated p)
  | negatedNone {bang opening closing : Token} : bang.lexeme = .symbol .bang →
      opening.lexeme = .symbol .lparen → closing.lexeme = .symbol .rparen →
      Derives ns .primary [bang, opening, closing] (.negated .placeholder)
  | negatedMembers {w : List Token} {bang opening closing : Token} {p : Path} :
      bang.lexeme = .symbol .bang → opening.lexeme = .symbol .lparen → Derives ns .members w p →
      closing.lexeme = .symbol .rparen →
      Derives ns .primary (bang :: opening :: (w ++ [closing])) (.negated p)
  | group {w : List Token} {opening closing : Token} {p : Path} :
      opening.lexeme = .symbol .lparen → Derives ns .path w p → closing.lexeme = .symbol .rparen →
      Derives ns .primary (opening :: (w ++ [closing])) p
  | oneMember {w : List Token} {p : Path} : Derives ns .member w p → Derives ns .members w p
  | moreMembers {u v : List Token} {bar : Token} {left right : Path} : Derives ns .members u left →
      bar.lexeme = .symbol .pipe → Derives ns .member v right →
      Derives ns .members (u ++ bar :: v) (.join .alternative left right)
  | forward {t : Token} {p : Path} : IsStep ns t p → Derives ns .member [t] p
  | backward {t caret : Token} {p : Path} : caret.lexeme = .symbol .caret → IsStep ns t p →
      Derives ns .member [caret, t] (.inverse p)

namespace Token

/-- A mark other than a round bracket leaves the depth of brackets as it is. -/
theorem bracketsBehind_other {t : Token} {m : Symbol} (h : t.lexeme = .symbol m)
    (opens : m ≠ .lparen) (closes : m ≠ .rparen) (k : Nat) : t.bracketsBehind k = k := by
  unfold bracketsBehind
  rw [h]
  split
  · next same => exact absurd (Lexeme.symbol.inj same) opens
  · next same => exact absurd (Lexeme.symbol.inj same) closes
  · rfl

theorem bracketsBehind_opening {t : Token} (h : t.lexeme = .symbol .lparen) (k : Nat) :
    t.bracketsBehind k = k + 1 := by
  simp [bracketsBehind, h]

theorem bracketsBehind_closing {t : Token} (h : t.lexeme = .symbol .rparen) (k : Nat) :
    t.bracketsBehind k = k - 1 := by
  simp [bracketsBehind, h]

end Token

theorem IsStep.bracketsBehind {ns : Namespaces} {t : Token} {p : Path} (h : IsStep ns t p)
    (k : Nat) : t.bracketsBehind k = k := by
  cases h <;> rfl

theorem IsPathMod.bracketsBehind {t : Token} {m : Symbol} {times : Repetition}
    (h : IsPathMod m times) (same : t.lexeme = .symbol m) (k : Nat) : t.bracketsBehind k = k := by
  cases h <;> exact Token.bracketsBehind_other same nofun nofun k

/-- The brackets of a word that derives from a nonterminal are balanced. -/
theorem Derives.balanced {ns : Namespaces} {phrase : PathPhrase} {w : List Token} {p : Path}
    (h : Derives ns phrase w p) (k : Nat) : bracketsBehind k w = k := by
  have joined : ∀ {u v : List Token} {t : Token} {m : Symbol}, t.lexeme = .symbol m →
      m ≠ .lparen → m ≠ .rparen → (∀ k, bracketsBehind k u = k) → (∀ k, bracketsBehind k v = k) →
      ∀ k, bracketsBehind k (u ++ t :: v) = k := by
    intro u v t m same opens closes left right k
    rw [bracketsBehind_append, left]
    show bracketsBehind (t.bracketsBehind k) v = k
    rw [t.bracketsBehind_other same opens closes, right]
  have bracketed : ∀ {w : List Token} {opening closing : Token},
      opening.lexeme = .symbol .lparen → closing.lexeme = .symbol .rparen →
      (∀ k, bracketsBehind k w = k) →
      ∀ k, bracketsBehind k (opening :: (w ++ [closing])) = k := by
    intro w opening closing isOpening isClosing inside k
    show bracketsBehind (opening.bracketsBehind k) (w ++ [closing]) = k
    rw [bracketsBehind_append, inside, Token.bracketsBehind_opening isOpening]
    exact closing.bracketsBehind_closing isClosing (k + 1)
  have marked : ∀ {w : List Token} {t : Token} {m : Symbol}, t.lexeme = .symbol m →
      m ≠ .lparen → m ≠ .rparen → (∀ k, bracketsBehind k w = k) →
      ∀ k, bracketsBehind k (t :: w) = k :=
    fun same opens closes inside => joined (u := []) same opens closes (fun _ => rfl) inside
  induction h generalizing k with
  | sequence _ ih => exact ih k
  | alternative _ bar _ left right => exact joined bar nofun nofun left right k
  | part _ ih => exact ih k
  | followed _ slash _ left right => exact joined slash nofun nofun left right k
  | element _ ih => exact ih k
  | inverse caret _ ih => exact marked caret nofun nofun ih k
  | primary _ ih => exact ih k
  | repeated _ mark mod ih =>
      rw [bracketsBehind_append, ih]
      exact mod.bracketsBehind mark k
  | step isStep => exact isStep.bracketsBehind k
  | negatedMember bang _ ih => exact marked bang nofun nofun ih k
  | negatedNone bang opening closing =>
      exact marked bang nofun nofun (bracketed (w := []) opening closing fun _ => rfl) k
  | negatedMembers bang opening _ closing ih =>
      exact marked bang nofun nofun (bracketed opening closing ih) k
  | group opening _ closing ih => exact bracketed opening closing ih k
  | oneMember _ ih => exact ih k
  | moreMembers _ bar _ left right => exact joined bar nofun nofun left right k
  | forward isStep => exact isStep.bracketsBehind k
  | backward caret isStep =>
      exact marked (w := [_]) caret nofun nofun (fun k => isStep.bracketsBehind k) k

end SparqlMetrics
