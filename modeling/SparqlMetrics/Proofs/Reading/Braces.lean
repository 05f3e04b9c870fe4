import SparqlMetrics.Proofs.Reading.Calls
import SparqlMetrics.Proofs.Reading.Tables

/-!
# Reading groups between braces

A group is read from its braces when what it holds is read between them, one level further in. The
braces stand on lines of their own, or, in an EXISTS test, the first one behind its keyword and the
last one in front of what follows the test.
-/
namespace SparqlMetrics

open Lexeme

def Group.draft (g : Group) : Grammar.Draft := ⟨g.elements, g.children, g.data⟩

/-- Whether what a group holds fits an allowance. -/
def Group.ContentFits (n : Nat) (g : Group) : Prop :=
  (∀ e ∈ g.elements, e.Fits n) ∧ ∀ child ∈ g.children, child.Fits n

namespace Grammar

open SparqlMetrics.Parser TwoRuns Cursor

/-- How what a group holds is read in front of its closing brace. -/
def ReadsContent (ns : Namespaces) (indent : Nat) (g : Group) : Prop :=
  ∀ n rest, rest.first = .symbol .rbrace →
    Fares (groupContent (Level.ofAllowance ns n)) (g.writeContent ns indent).text (g.ContentFits n)
      (g.rewrite reread).draft rest

section Braces
variable {ns : Namespaces} {indent n : Nat} {g : Group} {rest opening closing : Text}

theorem fares_bracedGroup (h : ReadsContent ns indent g)
    (hopen : ∀ t, Fares (mark .lbrace .openGroup) opening True () t)
    (hclose : Fares (mark .rbrace .closeGroup) closing True () rest)
    (closes : (closing ++ rest).first = .symbol .rbrace) :
    Fares (bracedGroup (Level.ofAllowance ns n) (g.kind.rewrite reread))
      (opening ++ ((g.writeContent ns indent).text ++ closing)) (g.ContentFits n) (g.rewrite reread)
      rest := by
  refine Reads.position (Fares.then (hopen _) ?_)
  refine (Fares.bind (h n _ closes) (hclose.bind_pure ?_)).congr (and_iff_left trivial)
  rw [bind_eq_of_ok (position_before rest)]
  obtain ⟨kind, elements, children, data, span⟩ := g
  rfl

/-- A group that is not a union, read where a level is left for it. -/
theorem fares_group (plain : g.kind.isUnion = false) (h : ReadsContent ns indent g)
    (hopen : ∀ t, Fares (mark .lbrace .openGroup) opening True () t)
    (hclose : Fares (mark .rbrace .closeGroup) closing True () rest)
    (closes : (closing ++ rest).first = .symbol .rbrace) :
    Fares ((Level.ofAllowance ns n).group (g.kind.rewrite reread))
      (opening ++ ((g.writeContent ns indent).text ++ closing)) (g.Fits n) (g.rewrite reread)
      rest := by
  have inside := fun n => fares_bracedGroup (n := n) h hopen hclose closes
  obtain ⟨kind, elements, children, data, span⟩ := g
  cases n with
  | zero =>
      have tooDeep : ¬ Group.Fits 0 ⟨kind, elements, children, data, span⟩ :=
        Group.not_fits_zero plain
      exact ⟨fun fits => absurd fits tooDeep, fun _ => ⟨_, rfl⟩, (inside 0).fewer⟩
  | succ n => exact (inside n).congr (Group.fits_braces plain).symm

/-- A group between braces on lines of their own. -/
theorem fares_braces (plain : g.kind.isUnion = false) {inner : Nat} (h : ReadsContent ns inner g) :
    Fares ((Level.ofAllowance ns n).group (g.kind.rewrite reread))
      (braces indent (g.writeContent ns inner)).text (g.Fits n) (g.rewrite reread) rest := by
  have shape : (braces indent (g.writeContent ns inner)).text =
      line indent [Byte.lbrace] ++
        ((g.writeContent ns inner).text ++ line indent [Byte.rbrace]) := by
    simp [braces]
  rw [shape]
  exact fares_group plain h (fun t => fares_markLine indent (by decide) _)
    (fares_markLine indent (by decide) _)
    (Text.first_of_opens (opens_brace indent (by decide) rest))

/-- A group behind a keyword. -/
theorem fares_inlineBraces (plain : g.kind.isUnion = false) {inner : Nat}
    (h : ReadsContent ns inner g) :
    Fares ((Level.ofAllowance ns n).group (g.kind.rewrite reread))
      (inlineBraces indent (g.writeContent ns inner)).text (g.Fits n) (g.rewrite reread) rest := by
  have shape : (inlineBraces indent (g.writeContent ns inner)).text =
      [Byte.lbrace, Byte.newline] ++
        ((g.writeContent ns inner).text ++ (Text.spaces indent ++ [Byte.rbrace])) := by
    simp [inlineBraces]
  have closing : ∀ t, Opens ([Byte.rbrace] ++ t) (.symbol .rbrace) t := opens_byte (by decide)
  rw [shape]
  refine fares_group plain h (fun t => ?_) ?_ ?_
  · have opens : ∀ t, Opens ([Byte.lbrace] ++ t) (.symbol .lbrace) t := opens_byte (by decide)
    exact (fares_mark _ (opens (Byte.newline :: t))).trailing (by decide) (List.cons_ne_nil _ _)
  · exact (fares_mark _ (closing rest)).spaces indent (List.cons_ne_nil _ _)
  · rw [List.append_assoc, Text.first_spaces, Text.first_of_opens (closing rest)]

end Braces

section Exists
variable {ns : Namespaces} {indent n : Nat} {pattern : Group} {span : Span} {negated : Bool}
  {rest : Text}

/-- A keyword of a test and the space behind it. -/
theorem opens_testWord (k : Keyword) (t : Text) :
    Opens (utf8 k.name ++ Byte.space :: t) (.keyword k (utf8 k.name)) (Byte.space :: t) :=
  opens_keyword k (stopsAt_cons (by decide))

/-- The keyword that denies a test, with the space behind it, or nothing. -/
def denial (negated : Bool) : Text := if negated then utf8 "NOT" ++ [Byte.space] else []

def testText (ns : Namespaces) (indent : Nat) (pattern : Group) : Text :=
  utf8 "EXISTS" ++ Byte.space :: (inlineBraces indent (pattern.writeContent ns (indent + 2))).text

theorem write_exists : ((Expression.exists negated (some pattern) span).write ns indent).text =
    denial negated ++ testText ns indent pattern := by
  have words : utf8 (if negated then "NOT EXISTS " else "EXISTS ") =
      denial negated ++ (utf8 "EXISTS" ++ [Byte.space]) := by
    cases negated <;> decide
  rw [Expression.write, Passage.text_append, Passage.text_part, words, testText]
  simp

theorem first_testText :
    (testText ns indent pattern ++ rest).first = .keyword .EXISTS (utf8 "EXISTS") := by
  rw [testText, List.append_assoc]
  exact Text.first_of_opens (opens_testWord .EXISTS _)

theorem opens_denial (t : Text) :
    Opens (denial true ++ t) (.keyword .NOT (utf8 "NOT")) (Byte.space :: t) := by
  have shape : denial true ++ t = utf8 "NOT" ++ Byte.space :: t := by
    rw [denial, if_pos rfl, List.append_assoc]
    rfl
  rw [shape]
  exact opens_testWord .NOT t

theorem fares_denial (t : Text) : Fares skip (denial true) True () t := by
  have shape : denial true = utf8 "NOT" ++ [Byte.space] := if_pos rfl
  rw [shape]
  exact (fares_skip (opens_testWord .NOT t)).trailing (by decide) (List.cons_ne_nil _ _)

/-- The keyword and the pattern behind it. -/
theorem fares_existsTest (plain : pattern.kind = .group)
    (h : ReadsContent ns (indent + 2) pattern) :
    Fares (existsTest (Level.ofAllowance ns n) negated 0) (testText ns indent pattern)
      (pattern.Fits n) (.exists negated (some (pattern.rewrite reread)) {}) rest := by
  have noUnion : pattern.kind.isUnion = false := by
    rw [plain]
    rfl
  have group : Fares ((Level.ofAllowance ns n).group (pattern.kind.rewrite reread))
      (inlineBraces indent (pattern.writeContent ns (indent + 2))).text (pattern.Fits n)
      (pattern.rewrite reread) rest := fares_inlineBraces noUnion h
  rw [plain] at group
  have nonempty : (inlineBraces indent (pattern.writeContent ns (indent + 2))).text ≠ [] := by
    simp [inlineBraces]
  refine Fares.then (fares_skip (opens_testWord .EXISTS _)) ?_
  exact Fares.bind_pure (group.space (b := Byte.space) (by decide) nonempty)
    (bind_eq_of_ok (position_before rest))

theorem startsAlone_exists :
    startsAlone (denial negated ++ testText ns indent pattern ++ rest).first
      (denial negated ++ testText ns indent pattern ++ rest).second = true := by
  rw [List.append_assoc]
  cases negated with
  | false =>
      show startsAlone (testText ns indent pattern ++ rest).first _ = true
      rw [first_testText]
      rfl
  | true =>
      have opens := opens_denial (testText ns indent pattern ++ rest)
      rw [Text.first_of_opens opens, Text.second_of_opens opens, Text.first_space _ (by decide),
        first_testText]
      rfl

/-- A test for a pattern. -/
theorem readsExpression_exists (plain : pattern.kind = .group)
    (h : ReadsContent ns (indent + 2) pattern) :
    ReadsExpression ns indent (.exists negated (some pattern) span) := by
  have test : ∀ n rest, Fares (existsTest (Level.ofAllowance ns n) negated 0)
      (testText ns indent pattern) (Expression.Fits (n + 1) (.exists negated (some pattern) span))
      (.exists negated (some (pattern.rewrite reread)) {}) rest :=
    fun n rest => (fares_existsTest plain h).congr Expression.fits_exists.symm
  refine readsExpression_alone rfl (Nat.le_add_left 1 _) ?_ fun n rest => ⟨?_, ?_⟩
  · rw [write_exists]
    cases negated <;> exact ⟨_, _, rfl, by decide⟩
  · rw [write_exists]
    exact startsAlone_exists
  · rw [write_exists]
    refine Reads.position ?_
    cases negated with
    | false => exact Reads.lexeme first_testText (test n rest)
    | true =>
        refine Reads.lexeme (l := .keyword .NOT (utf8 "NOT")) ?_ ?_
        · rw [List.append_assoc]
          exact Text.first_of_opens (opens_denial _)
        · refine Fares.then (fares_denial _) (Reads.isAtKeyword (b := true) ?_ (test n rest))
          rw [first_testText]
          rfl

end Exists

end Grammar

end SparqlMetrics
