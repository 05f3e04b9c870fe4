import SparqlMetrics.Text.Basic

/-!
# Passages

A passage is a text in the making: parts in the order in which they are to stand. To put two passages
together copies neither, so a part that is nested deeply is copied once, when the text is made, and
not once for every level around it. A passage stands for its text, and everything said about what is
written is said about texts: `Passage.text_append` is the law that reads one from the other.
-/
namespace SparqlMetrics

inductive Passage where
  | part (t : Text)
  | both (first second : Passage)

namespace Passage

instance : Coe Text Passage := ⟨.part⟩

instance : Append Passage := ⟨.both⟩

/-- The text of a passage in front of another text. -/
def onto : Passage → Text → Text
  | .part t, rest => t ++ rest
  | .both first second, rest => first.onto (second.onto rest)

def text (p : Passage) : Text := p.onto []

def empty : Passage := .part []

def bracketed (p : Passage) : Passage := [Byte.lparen] ++ p ++ [Byte.rparen]

/-- A passage between brackets if it needs them. -/
def bracketedIf (needed : Bool) (p : Passage) : Passage := if needed then p.bracketed else p

def line (indent : Nat) (p : Passage) : Passage := Text.spaces indent ++ p ++ [Byte.newline]

theorem onto_eq (p : Passage) (rest : Text) : p.onto rest = p.text ++ rest := by
  induction p generalizing rest with
  | part t => simp [onto, text]
  | both first second ihFirst ihSecond =>
    have whole : (Passage.both first second).text = first.text ++ second.text := ihFirst second.text
    rw [whole, onto, ihSecond, ihFirst, List.append_assoc]

@[simp] theorem text_part (t : Text) : (Passage.part t).text = t := by simp [text, onto]

@[simp] theorem text_append (first second : Passage) :
    (first ++ second).text = first.text ++ second.text := onto_eq first second.text

@[simp] theorem text_empty : Passage.empty.text = [] := rfl

@[simp] theorem text_bracketed (p : Passage) : p.bracketed.text = Text.bracketed p.text := by
  simp [bracketed, Text.bracketed]

end Passage

end SparqlMetrics
