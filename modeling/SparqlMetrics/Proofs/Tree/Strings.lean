import SparqlMetrics.Algebra.ResultVariables
import SparqlMetrics.Proofs.Tree.Everywhere
import SparqlMetrics.Text.Numeral
import SparqlMetrics.Token.Basic

/-!
# The strings of a tree

Every text that a query holds, node by node: names, labels, IRIs, values and tags of terms, steps of
paths, operators, function names, separators, columns and result variables. A class of texts that
holds all constants and is kept by what reading does with texts is asked of a whole tree as a check
of its nodes. Main statement: `TextClass.keeps_resultVariables`, the result variables of a form are
of a class when the tree under it is.
-/
namespace SparqlMetrics

/-- A class of texts with the constants of the grammar, kept by what reading does with texts. -/
structure TextClass where
  Holds : Text → Prop
  constant : ∀ s : String, Holds (utf8 s)
  append : ∀ {s t : Text}, Holds s → Holds t → Holds (s ++ t)
  toUpper : ∀ {s : Text}, Holds s → Holds s.toUpper
  ofNat : ∀ n : Nat, Holds (Text.ofNat n)
  resolve : ∀ {base reference : Text}, Holds base → Holds reference →
    Holds (Iri.resolve base reference)
  dropColon : ∀ {s : Text}, Holds s → s.getLast? = some Byte.colon → Holds s.dropLast

def TextClass.all : TextClass where
  Holds _ := True
  constant _ := trivial
  append _ _ := trivial
  toUpper _ := trivial
  ofNat _ := trivial
  resolve _ _ := trivial
  dropColon _ _ := trivial

/-- Whether all of some texts are of a class. -/
def TextClass.Keeps (T : TextClass) (texts : List Text) : Prop := ∀ s ∈ texts, T.Holds s

/-- The texts that a lexeme holds; a fault and a mark hold none. -/
def Lexeme.strings : Lexeme → List Text
  | .iri reference => [reference]
  | .prefixedName label localName => [label, localName]
  | .blankNodeLabel label => [label]
  | .variableName name => [name]
  | .string value _ => [value]
  | .number _ digits => [digits]
  | .languageTag tag => [tag]
  | .identifier name => [name]
  | .keyword _ spelled => [spelled]
  | .symbol _ => []
  | .endOfInput => []
  | .invalid _ => []

def Namespaces.strings (ns : Namespaces) : List Text :=
  ns.entries.flatMap (fun entry => [entry.1, entry.2]) ++ ns.base.toList

def Node.strings : Node → List Text
  | .iri value => [value]
  | .literal l => l.value :: (l.language.toList ++ l.datatype.toList)
  | .blank label => [label]
  | .var name => [name]

def Path.strings : Path → List Text
  | .step predicate => predicate.node.strings
  | .inverse inner => inner.strings
  | .repeated _ inner => inner.strings
  | .negated inner => inner.strings
  | .join _ left right => left.strings ++ right.strings

def Expression.strings : Expression → List Text
  | .unary op _ _ => [op]
  | .binary op _ _ => [op]
  | .call (.builtin name) _ _ _ => [name]
  | .aggregate name _ _ _ separator _ => name :: separator.toList
  | _ => []

def Element.strings : Element → List Text
  | .path _ steps _ _ => steps.strings
  | _ => []

def Form.names : Form → List Text
  | .select _ _ items => items.map (·.name)
  | _ => []

def Query.strings (q : Query) : List Text :=
  q.resultVariables ++ (q.dataset.map (·.iri) ++ (q.form.names ++ q.groupBy.filterMap (·.name)))

namespace TextClass

/-- The check that all texts of a tree are of a class. -/
def checks (T : TextClass) : NodeChecks where
  term t := T.Keeps t.node.strings
  data d := T.Keeps d.columns
  expression e := T.Keeps e.strings
  element e := T.Keeps e.strings
  query q := T.Keeps q.strings

variable {T : TextClass} {s : Text} {xs ys : List Text}

theorem keeps_nil : T.Keeps [] := nofun

theorem keeps_cons (first : T.Holds s) (rest : T.Keeps xs) : T.Keeps (s :: xs) :=
  List.forall_mem_cons.mpr ⟨first, rest⟩

theorem keeps_singleton : T.Keeps [s] ↔ T.Holds s := List.forall_mem_singleton

theorem keeps_append : T.Keeps (xs ++ ys) ↔ T.Keeps xs ∧ T.Keeps ys := List.forall_mem_append

theorem keeps_flatMap {α : Type} {f : α → List Text} {items : List α}
    (h : ∀ x ∈ items, T.Keeps (f x)) : T.Keeps (items.flatMap f) := by
  intro s member
  obtain ⟨x, inside, member⟩ := List.mem_flatMap.mp member
  exact h x inside s member

theorem keeps_distinct (h : T.Keeps xs) : T.Keeps (Text.distinct xs) :=
  fun s member => h s (Text.mem_distinct.mp member)

theorem keeps_variables {t : Term} (h : T.checks.term t) : T.Keeps t.variables := by
  intro s member
  obtain ⟨node, span⟩ := t
  cases node with
  | var name =>
      rw [Term.variables, Node.varName?, Option.toList_some] at member
      exact h s member
  | _ => cases member

theorem keeps_columnsOf {data : Option InlineData} (h : tableEverywhere T.checks data) :
    T.Keeps (columnsOf data) := by
  cases data with
  | none => exact keeps_nil
  | some d => exact h.1

theorem keeps_kind {kind : GroupKind} (h : kind.Everywhere T.checks) :
    T.Keeps kind.boundVariables := by
  cases kind with
  | graph name =>
      cases name with
      | none => exact keeps_nil
      | some t => exact keeps_variables h
  | _ => exact keeps_nil

theorem keeps_element {e : Element} (h : e.Everywhere T.checks) : T.Keeps e.boundVariables := by
  cases e with
  | triple t =>
      obtain ⟨_, subject, predicate, object⟩ := h
      exact keeps_append.mpr ⟨keeps_append.mpr ⟨keeps_variables subject, keeps_variables predicate⟩,
        keeps_variables object⟩
  | path subject steps object span =>
      obtain ⟨_, subject, object⟩ := h
      exact keeps_append.mpr ⟨keeps_variables subject, keeps_variables object⟩
  | filter condition span => exact keeps_nil
  | subquery query span =>
      cases query with
      | none => exact keeps_nil
      | some q => exact (keeps_append.mp (Query.everywhere_iff.mp h.2).1).1
  | bind value target span => exact keeps_variables h.2.2

mutual

theorem keeps_group : ∀ g : Group, g.Everywhere T.checks → T.Keeps g.boundVariables
  | ⟨kind, elements, children, data, _⟩, ⟨_, hkind, helements, hchildren, hdata⟩ => by
    have bound : T.Keeps (elements.flatMap Element.boundVariables) :=
      keeps_flatMap fun e member => keeps_element (Element.everywhereAll_iff.mp helements e member)
    exact keeps_append.mpr ⟨keeps_append.mpr ⟨keeps_append.mpr ⟨bound, keeps_columnsOf hdata⟩,
      keeps_kind hkind⟩, keeps_children children hchildren⟩

theorem keeps_children : ∀ gs : List Group, Group.EverywhereAll T.checks gs →
    T.Keeps (Group.boundByChildren gs)
  | [], _ => keeps_nil
  | ⟨kind, elements, children, data, span⟩ :: rest, ⟨first, others⟩ => by
    have behind := keeps_children rest others
    have here := keeps_group ⟨kind, elements, children, data, span⟩ first
    cases kind with
    | minus => exact behind
    | _ => exact keeps_append.mpr ⟨here, behind⟩

end

/-- The result variables of a form over a pattern and a table. -/
theorem keeps_resultVariables {form : Form} {root : Group} {values : Option InlineData}
    (names : T.Keeps form.names) (inside : form.Everywhere T.checks)
    (pattern : root.Everywhere T.checks) (table : tableEverywhere T.checks values) :
    T.Keeps (form.resultVariables root values) := by
  have bound : T.Keeps (Text.distinct (root.boundVariables ++ columnsOf values)) :=
    keeps_distinct (keeps_append.mpr ⟨keeps_group root pattern, keeps_columnsOf table⟩)
  cases form with
  | select modifier everything items =>
      cases everything with
      | true => exact bound
      | false => exact keeps_distinct names
  | describe everything targets =>
      cases everything with
      | true => exact bound
      | false =>
          exact keeps_distinct (keeps_flatMap fun t member => keeps_variables (inside t member))
  | _ => exact bound

end TextClass

end SparqlMetrics
