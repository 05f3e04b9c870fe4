import SparqlMetrics.Proofs.Normal.Words
import SparqlMetrics.Proofs.Token.Splice

/-!
# Texts in chunks

A text in chunks is a sequence of white bytes and words, each word as some lexeme is written and in
front of nothing that it shuns (`Chunk.Laid`). Such a text is read as the lexemes of its words
(`Chunk.lexemes_texts`), and to replace the names under a label is to replace chunks
(`Chunk.replaceFrom_texts`). What is left is in chunks again, so the names under several labels are
replaced one label after the other.
-/
namespace SparqlMetrics

open SparqlMetrics.Normal Lexeme

theorem StopsAt.left {p : Byte → Bool} {s t : Text} (h : StopsAt p (s ++ t)) : StopsAt p s := by
  cases s with
  | nil => exact stopsAt_nil p
  | cons b s => exact fun c same => h c same

theorem Lexeme.WrittenAs.ne_nil {ns : Namespaces} {l : Lexeme} {word : Text} {shuns : Byte → Bool}
    (h : l.WrittenAs ns word shuns) : word ≠ [] := by
  rintro rfl
  exact absurd (h.opens (stopsAt_nil shuns)).length_lt (by decide)

/-- A white byte, or a word with the lexeme it is written for and the bytes that it shuns. -/
inductive Chunk where
  | gap (b : Byte)
  | token (word : Text) (lexeme : Lexeme) (shuns : Byte → Bool)

namespace Chunk

def text : Chunk → Text
  | .gap b => [b]
  | .token word _ _ => word

/-- The lexeme of a chunk, if it is no white byte. -/
def lexeme? : Chunk → Option Lexeme
  | .gap _ => none
  | .token _ l _ => some l

def isMinus : Chunk → Bool
  | .gap _ => false
  | .token _ l _ => l == .symbol .minus

/-- The chunk that stands for a name. -/
def placeholder : Chunk := .token Normal.placeholder (.iri (utf8 "r")) fun _ => false

/-- A chunk with the placeholder in its place, if it is a name under one of some labels and not
behind a minus sign. -/
def rename (which : Text → Bool) (behindMinus : Bool) : Chunk → Chunk
  | .token word (.prefixedName label name) shuns =>
    if which label && !behindMinus then placeholder else .token word (.prefixedName label name) shuns
  | c => c

def texts (cs : List Chunk) : Text := cs.flatMap text

def lexemes (cs : List Chunk) : List Lexeme := cs.filterMap lexeme?

/-- Replaces the names under some labels by the placeholder. -/
def renameAll (which : Text → Bool) : Bool → List Chunk → List Chunk
  | _, [] => []
  | behindMinus, c :: cs => c.rename which behindMinus :: renameAll which c.isMinus cs

/-- Whether each word is as its lexeme is written and stands in front of nothing that it shuns. -/
def Laid (ns : Namespaces) : List Chunk → Prop
  | [] => True
  | .gap b :: cs => b.isSpace = true ∧ Laid ns cs
  | .token word l shuns :: cs => l.WrittenAs ns word shuns ∧ StopsAt shuns (texts cs) ∧ Laid ns cs

variable {ns : Namespaces} {cs ds : List Chunk} {c : Chunk} {which : Text → Bool} {behindMinus : Bool}

@[simp] theorem texts_cons (c : Chunk) (cs : List Chunk) : texts (c :: cs) = c.text ++ texts cs := rfl

@[simp] theorem texts_append (cs ds : List Chunk) : texts (cs ++ ds) = texts cs ++ texts ds :=
  List.flatMap_append

@[simp] theorem lexemes_append (cs ds : List Chunk) : lexemes (cs ++ ds) = lexemes cs ++ lexemes ds :=
  List.filterMap_append

theorem Laid.left (h : Laid ns (cs ++ ds)) : Laid ns cs := by
  induction cs with
  | nil => trivial
  | cons c cs ih =>
      cases c with
      | gap b => exact ⟨h.1, ih h.2⟩
      | token word l shuns =>
          obtain ⟨written, stop, laid⟩ := h
          have before : StopsAt shuns (texts cs ++ texts ds) := texts_append cs ds ▸ stop
          exact ⟨written, before.left, ih laid⟩

theorem Laid.right (h : Laid ns (cs ++ ds)) : Laid ns ds := by
  induction cs with
  | nil => exact h
  | cons c cs ih =>
      cases c with
      | gap b => exact ih h.2
      | token word l shuns => exact ih h.2.2

section Reading

/-- A text in chunks is read as the lexemes of its words, and then it ends. -/
theorem lexemes_texts (h : Laid ns cs) :
    (TokenStream.ofText (texts cs)).lexemes = (lexemes cs, .endOfInput) := by
  induction cs with
  | nil => exact TokenStream.lexemes_of_gap rfl
  | cons c cs ih =>
      cases c with
      | gap b =>
          have same : skipGap false (texts (.gap b :: cs)) = skipGap false (texts cs) := by
            simp [text, skipGap, h.1]
          rw [TokenStream.lexemes_congr same, ih h.2]
          rfl
      | token word l shuns =>
          obtain ⟨written, stop, laid⟩ := h
          rw [texts_cons, text, TokenStream.lexemes_of_opens (written.opens stop), ih laid]
          rfl

end Reading

section Renaming

/-- What a byte in front of a text has to do with a minus sign there: it is one, or else no name goes
on behind it. -/
structure Follows (behindMinus : Bool) (before : Option Byte) (s : Text) : Prop where
  minus : behindMinus = true → before = some Byte.hyphen
  other : behindMinus = false → goesOn before = true → Breaks s

theorem follows_of_goesOn {before : Option Byte} (h : goesOn before = false) (s : Text) :
    Follows false before s where
  minus := nofun
  other _ goes := absurd (h.symm.trans goes) (by decide)

theorem follows_token {word : Text} {l : Lexeme} {shuns : Byte → Bool}
    (h : l.WrittenAs ns word shuns) {s : Text} (stop : StopsAt shuns s) :
    Follows (l == .symbol .minus) word.getLast? s where
  minus same := by
    rw [h.minus (beq_iff_eq.mp same)]
    rfl
  other differs goes := by
    have joins := (h.joins goes).resolve_left (beq_eq_false_iff_ne.mp differs)
    refine stop.weaken fun b shunned => Bool.eq_false_iff.mpr fun continues => ?_
    rw [joins b continues] at shunned
    cases shunned

/-- In front of a name a word goes on if and only if a minus sign stands there. -/
theorem Follows.eq_goesOn {word rest own name : Text} {shuns : Byte → Bool} {before : Option Byte}
    (follows : Follows behindMinus before (word ++ rest))
    (h : (Lexeme.prefixedName own name).WrittenAs ns word shuns) : behindMinus = goesOn before := by
  cases behindMinus with
  | true => rw [follows.minus rfl]; rfl
  | false =>
      cases goes : goesOn before with
      | false => rfl
      | true =>
          have breaks := follows.other rfl goes
          obtain ⟨b, more, rfl⟩ := List.exists_cons_of_ne_nil h.ne_nil
          have first := (h.name own name rfl).2 b rfl
          rw [breaks b rfl] at first
          cases first

theorem text_rename {word rest label : Text} {l : Lexeme} {shuns : Byte → Bool}
    (h : l.WrittenAs ns word shuns) {before : Option Byte}
    (follows : Follows behindMinus before (word ++ rest)) :
    ((Chunk.token word l shuns).rename (· == label) behindMinus).text =
      l.standIn label before word := by
  cases l with
  | prefixedName own name =>
      rw [rename, standIn, follows.eq_goesOn h]
      by_cases both : own = label ∧ goesOn before = false
      · rw [if_pos both, if_pos (by simp [both])]
        rfl
      · rw [if_neg both, if_neg (by simpa using both)]
        rfl
  | _ => rfl

theorem plain_of_isSpace {b : Byte} (h : b.isSpace = true) :
    (b ≠ Byte.quote ∧ b ≠ Byte.less) ∧ opensLabel b = false ∧ continuesToken b = false :=
  Byte.forall_of_digits (P := fun b => b.isSpace = true →
    (b ≠ Byte.quote ∧ b ≠ Byte.less) ∧ opensLabel b = false ∧ continuesToken b = false)
    (by decide) b h

/-- To replace the names under a label in a text is to replace its chunks. -/
theorem replaceFrom_texts (h : Laid ns cs) {label : Text} (isLabel : IsPrefixLabel label)
    {before : Option Byte} (follows : Follows behindMinus before (texts cs)) :
    replaceFrom (label ++ [Byte.colon]) 0 before (texts cs) =
      texts (renameAll (· == label) behindMinus cs) := by
  induction cs generalizing behindMinus before with
  | nil => rfl
  | cons c cs ih =>
      cases c with
      | gap b =>
          obtain ⟨plain, closed, ends⟩ := plain_of_isSpace h.1
          show replaceFrom _ 0 before (b :: texts cs) = _
          rw [replaceFrom_cons (verbatim?_eq_none plain _) (.inr (isPrefixOf_eq_false isLabel closed)),
            ih h.2 (follows_of_goesOn (show goesOn (some b) = false from ends) _)]
          rfl
      | token word l shuns =>
          obtain ⟨written, stop, laid⟩ := h
          rw [texts_cons, text] at follows ⊢
          rw [written.replaced before isLabel stop, ih laid (follows_token written stop),
            ← text_rename written follows]
          rfl

theorem text_placeholder : Normal.placeholder = Text.angled (utf8 "r") := by decide

theorem writtenAs_placeholder :
    (Lexeme.iri (utf8 "r")).WrittenAs ns Normal.placeholder fun _ => false :=
  text_placeholder ▸ writtenAs_iri (by decide)

/-- What may stand behind a word may do so with its names replaced. -/
theorem stopsAt_renameAll {shuns : Byte → Bool}
    (admits : shuns Byte.less = true → ∀ b, b.continuesName = true → shuns b = true)
    (h : Laid ns cs) (stop : StopsAt shuns (texts cs)) :
    StopsAt shuns (texts (renameAll which behindMinus cs)) := by
  cases cs with
  | nil => exact stop
  | cons c cs =>
      cases c with
      | gap b => exact stopsAt_cons (stop b rfl)
      | token word l shuns' =>
          obtain ⟨b, more, rfl⟩ := List.exists_cons_of_ne_nil h.1.ne_nil
          have first : shuns b = false := stop b rfl
          have kept : StopsAt shuns (b :: more ++ texts (renameAll which (isMinus (.token (b :: more) l
            shuns')) cs)) := stopsAt_cons first
          cases l with
          | prefixedName label name =>
              rw [renameAll, rename]
              split
              · refine stopsAt_cons (Bool.eq_false_iff.mpr fun bracket => ?_)
                rw [admits bracket b ((h.1.name label name rfl).2 b rfl)] at first
                cases first
              · exact kept
          | _ => exact kept

theorem laid_renameAll (h : Laid ns cs) : Laid ns (renameAll which behindMinus cs) := by
  induction cs generalizing behindMinus with
  | nil => trivial
  | cons c cs ih =>
      cases c with
      | gap b => exact ⟨h.1, ih h.2⟩
      | token word l shuns =>
          obtain ⟨written, stop, laid⟩ := h
          have kept : Laid ns (.token word l shuns :: renameAll which (l == .symbol .minus) cs) :=
            ⟨written, stopsAt_renameAll written.admitsBracket laid stop, ih laid⟩
          cases l with
          | prefixedName label name =>
              rw [renameAll, rename]
              split
              · exact ⟨writtenAs_placeholder, fun _ _ => rfl, ih laid⟩
              · exact kept
          | _ => exact kept

theorem isMinus_rename (which : Text → Bool) (behindMinus : Bool) (c : Chunk) :
    (c.rename which behindMinus).isMinus = c.isMinus := by
  cases c with
  | gap b => rfl
  | token word l shuns =>
      cases l with
      | prefixedName label name => rw [rename]; split <;> rfl
      | _ => rfl

/-- The names under some labels and then those under others are replaced. -/
theorem renameAll_renameAll (first second : Text → Bool) (behindMinus : Bool) (cs : List Chunk) :
    renameAll second behindMinus (renameAll first behindMinus cs) =
      renameAll (fun label => first label || second label) behindMinus cs := by
  induction cs generalizing behindMinus with
  | nil => rfl
  | cons c cs ih =>
      rw [renameAll, renameAll, renameAll, isMinus_rename, ih]
      refine congrArg (· :: _) ?_
      cases c with
      | gap b => rfl
      | token word l shuns =>
          cases l with
          | prefixedName label name =>
              cases inFirst : first label <;> cases behindMinus <;> simp [rename, inFirst, placeholder]
          | _ => rfl

theorem renameAll_congr {second : Text → Bool} (h : Laid ns cs)
    (same : ∀ entry ∈ ns.entries, which entry.1 = second entry.1) :
    renameAll which behindMinus cs = renameAll second behindMinus cs := by
  induction cs generalizing behindMinus with
  | nil => rfl
  | cons c cs ih =>
      cases c with
      | gap b => rw [renameAll, renameAll, ih h.2]; rfl
      | token word l shuns =>
          rw [renameAll, renameAll, ih h.2.2]
          refine congrArg (· :: _) ?_
          cases l with
          | prefixedName label name =>
              obtain ⟨⟨entry, member, rfl⟩, _⟩ := h.1.name label name rfl
              rw [rename, rename, same entry member]
          | _ => rfl

theorem renameAll_none (behindMinus : Bool) (cs : List Chunk) :
    renameAll (fun _ => false) behindMinus cs = cs := by
  induction cs generalizing behindMinus with
  | nil => rfl
  | cons c cs ih =>
      rw [renameAll, ih]
      cases c with
      | gap b => rfl
      | token word l shuns => cases l <;> rfl

end Renaming

end Chunk

end SparqlMetrics
