import SparqlMetrics.Proofs.Grammar.Before
import SparqlMetrics.Proofs.Token.Written

/-!
# Texts that spell lexemes

A text spells lexemes when the scanner reads these of it whatever stands behind it. Such texts may be
written one behind the other, so a generated text is read piece by piece. A name spells nothing by
itself, as the text behind could go on with it; with a space behind it does.
-/
namespace SparqlMetrics.Lexeme

variable {s t : Text} {l : Lexeme} {ls ms : List Lexeme}

/-- Whether a text is read as given lexemes in front of every text. -/
def Spells (s : Text) (ls : List Lexeme) : Prop :=
  ∀ rest, (TokenStream.ofText (s ++ rest)).lexemes =
    (ls ++ (TokenStream.ofText rest).lexemes.1, (TokenStream.ofText rest).lexemes.2)

theorem spells_nil : Spells [] [] := fun _ => rfl

theorem Spells.append (hs : Spells s ls) (ht : Spells t ms) : Spells (s ++ t) (ls ++ ms) := by
  intro rest
  rw [List.append_assoc, hs, ht, List.append_assoc]

theorem Spells.cons (opens : ∀ rest, Opens (s ++ rest) l (t ++ rest)) (ht : Spells t ls) :
    Spells s (l :: ls) := by
  intro rest
  rw [TokenStream.lexemes_of_opens (opens rest), ht]
  rfl

theorem spells_of_opens (opens : ∀ rest, Opens (s ++ rest) l rest) : Spells s [l] :=
  .cons (t := []) opens spells_nil

theorem Spells.space {b : Byte} (space : b.isSpace = true) (h : Spells s ls) :
    Spells (b :: s) ls := by
  intro rest
  have same : skipGap false (b :: s ++ rest) = skipGap false (s ++ rest) := by
    simp [skipGap, space]
  rw [TokenStream.lexemes_congr same, h]

theorem spells_flatMap {α : Type} {items : List α} {write : α → Text} {read : α → List Lexeme}
    (h : ∀ x ∈ items, Spells (write x) (read x)) :
    Spells (items.flatMap write) (items.flatMap read) := by
  induction items with
  | nil => exact spells_nil
  | cons x rest ih =>
      have head := h x List.mem_cons_self
      have tail := ih fun y member => h y (List.mem_cons_of_mem _ member)
      rw [List.flatMap_cons, List.flatMap_cons]
      exact head.append tail

/-- A text that spells lexemes is read as these and then ends. -/
theorem Spells.lexemes (h : Spells s ls) :
    (TokenStream.ofText s).lexemes = (ls, .endOfInput) := by
  have read := h []
  rwa [List.append_nil, TokenStream.lexemes_of_gap (s := []) rfl, List.append_nil] at read

theorem spells_mark {s : Symbol} (h : s ∈ Symbol.plain) : Spells s.text [.symbol s] :=
  spells_of_opens (opens_plain h)

theorem spells_iri {iri : Text} (clean : IsCleanIri iri) : Spells (Text.angled iri) [.iri iri] :=
  spells_of_opens fun _ => opens_iri clean

/-- A lexeme that ends in front of a break ends in front of a space. -/
theorem spells_before_space (opens : ∀ {rest}, Breaks rest → Opens (s ++ rest) l rest) :
    Spells (s ++ [Byte.space]) [l] := by
  apply Spells.cons (t := [Byte.space])
  · intro rest
    rw [List.append_assoc]
    exact opens (stopsAt_cons (by decide))
  · exact spells_nil.space (by decide)

theorem spells_word (word : Text) (h : IsWord word) :
    Spells (word ++ [Byte.space]) [ofWord word] :=
  spells_before_space (opens_word h)

theorem spells_prefixedName {label name : Text} (h : read s = .ok (.prefixedName label name, [])) :
    Spells (s ++ [Byte.space]) [.prefixedName label name] :=
  spells_before_space (opens_prefixedName_append h)

/-- An escaped string in front of a byte that is no quote. -/
theorem Spells.string {escape : Byte → Text} {value : Text} {b : Byte}
    (h : ∀ b ∈ value, StandsFor (escape b) b) (other : b ≠ Byte.quote) (ht : Spells (b :: t) ls) :
    Spells (Byte.quote :: (value.flatMap escape ++ Byte.quote :: b :: t))
      (.string value false :: ls) := by
  apply Spells.cons (t := b :: t) _ ht
  intro rest
  have avoids : Avoids Byte.quote (b :: t ++ rest) := stopsAt_cons (beq_false_of_ne other)
  have opens := opens_string h avoids
  simpa using opens

end SparqlMetrics.Lexeme
