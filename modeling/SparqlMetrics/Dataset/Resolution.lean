import SparqlMetrics.Grammar.Unit

/-!
# Prefix resolution

A query text may use prefixes and relative references that only its dataset declares. Its dictionary
holds those namespaces and a base. The text is read with declarations in front of it, one more each
time a declaration is missed, until it is a query or fails for another reason. Each label is
declared at most once and the base at most once, so the dictionary bounds the number of attempts.
-/
namespace SparqlMetrics

structure Injection where
  declarations : Text := []
  labels : List Text := []
  hasBase : Bool := false
  deriving DecidableEq, Repr

/-- The outcome of reading a text under a dictionary, with the declarations it took. -/
structure Resolution where
  injection : Injection
  outcome : Except ErrorReport QueryUnit

namespace Injection

/-- Puts the declaration of a namespace behind those there are. -/
def addPrefix (label iri : Text) (i : Injection) : Injection :=
  { i with
    declarations :=
      i.declarations ++ utf8 "PREFIX " ++ label ++ utf8 ": " ++ Text.angled iri ++ utf8 "\n"
    labels := i.labels ++ [label] }

/-- Puts a declaration of the base behind those there are. A dataset's base doubles as its default
namespace, so that is declared too unless it is already. -/
def addBase (base : Text) (i : Injection) : Injection :=
  let named := if [] ∈ i.labels then i else i.addPrefix [] base
  { named with
    declarations := named.declarations ++ utf8 "BASE " ++ Text.angled base ++ utf8 "\n"
    hasBase := true }

/-- The namespace of a label in a dictionary; the base stands for a missing default namespace. -/
def namespaceFor? (dictionary : Namespaces) (label : Text) : Option Text :=
  match dictionary.find? label with
  | some iri => some iri
  | none => if label.isEmpty then dictionary.base else none

/-- A report that a prefix is not in the dictionary either. -/
def notInDictionary (report : ErrorReport) : ErrorReport :=
  { report with message := report.message ++ utf8 " (not in prefix dictionary)" }

/-- The declarations that mend an error, or the report of an error that none mends. -/
def mend (dictionary : Namespaces) (i : Injection) (e : ParseError) :
    Except ErrorReport Injection :=
  match e.failure with
  | .undeclaredPrefix label =>
    if label ∈ i.labels then .error e.report
    else
      match namespaceFor? dictionary label with
      | some iri => .ok (i.addPrefix label iri)
      | none => .error (notInDictionary e.report)
  | .missingBase _ =>
    if i.hasBase then .error e.report
    else
      match dictionary.base with
      | some base => .ok (i.addBase base)
      | none => .error e.report
  | .malformed _ => .error e.report

/-- The labels that a dictionary has a namespace for. -/
def candidates (dictionary : Namespaces) : List Text := [] :: dictionary.entries.map (·.1)

/-- How many names are not among given labels. -/
def unused (labels names : List Text) : Nat := names.countP (!labels.contains ·)

/-- How many declarations of a base may still be put in front of a text. -/
def basesLeft (hasBase : Bool) : Nat := if hasBase then 0 else 1

/-- How many declarations may still be put in front of a text. -/
def allowance (dictionary : Namespaces) (i : Injection) : Nat :=
  unused i.labels (candidates dictionary) + basesLeft i.hasBase

theorem mem_candidates {dictionary : Namespaces} {label iri : Text}
    (h : namespaceFor? dictionary label = some iri) : label ∈ candidates dictionary := by
  simp only [namespaceFor?] at h
  split at h
  · next found =>
    simp only [Namespaces.find?, Option.map_eq_some_iff] at found
    obtain ⟨entry, hit, _⟩ := found
    have member := List.mem_of_find?_eq_some hit
    have same := List.find?_some hit
    exact List.mem_cons_of_mem _ (List.mem_map.mpr ⟨entry, member, by simpa using same⟩)
  · split at h
    · next empty =>
      rw [List.isEmpty_iff.mp empty]
      exact List.mem_cons_self
    · simp at h

theorem unused_append_le (labels : List Text) (label : Text) (names : List Text) :
    unused (labels ++ [label]) names ≤ unused labels names := by
  apply List.countP_mono_left
  intro name _ fresh
  simp only [List.contains_append, Bool.not_or, Bool.and_eq_true] at fresh
  exact fresh.1

theorem unused_append_lt {labels names : List Text} {label : Text} (fresh : label ∉ labels)
    (member : label ∈ names) : unused (labels ++ [label]) names < unused labels names := by
  induction names with
  | nil => simp at member
  | cons name rest ih =>
    have tail := unused_append_le labels label rest
    simp only [unused, List.countP_cons] at *
    by_cases same : name = label
    · subst same
      have head : (labels ++ [name]).contains name = true := by simp
      have old : labels.contains name = false := by simpa using fresh
      rw [head, old]
      simp only [Bool.not_true, Bool.not_false, Bool.false_eq_true, if_false, if_true]
      omega
    · have inRest : label ∈ rest := by
        rcases List.mem_cons.mp member with h | h
        · exact absurd h.symm same
        · exact h
      have shorter := ih inRest
      have head : (labels ++ [label]).contains name = labels.contains name := by
        simp [same]
      rw [head]
      omega

theorem allowance_mend_lt {dictionary : Namespaces} {i after : Injection} {e : ParseError}
    (h : mend dictionary i e = .ok after) :
    after.allowance dictionary < i.allowance dictionary := by
  unfold mend at h
  split at h
  · split at h
    · simp at h
    · next fresh =>
      split at h
      · next found =>
        have member := mem_candidates found
        rw [← Except.ok.inj h]
        have := unused_append_lt fresh member
        simp only [allowance, addPrefix] at *
        omega
      · simp at h
  · split at h
    · simp at h
    · next noBase =>
      split at h
      · rw [← Except.ok.inj h]
        have shorter := unused_append_le i.labels [] (candidates dictionary)
        simp only [addBase, allowance, addPrefix, noBase, basesLeft]
        split
        · simp
        · simp only [Bool.false_eq_true, if_false, if_true]
          omega
      · simp at h
  · simp at h

end Injection

namespace Resolution

/-- Reads a text behind given declarations and those that mend its errors. -/
def behind (dictionary : Namespaces) (s : Text) (i : Injection) : Resolution :=
  match QueryUnit.parse (i.declarations ++ s) with
  | .ok unit => ⟨i, .ok unit⟩
  | .error e =>
    match _h : i.mend dictionary e with
    | .ok after => behind dictionary s after
    | .error report => ⟨i, .error report⟩
termination_by i.allowance dictionary
decreasing_by exact Injection.allowance_mend_lt _h

def ofText (dictionary : Namespaces) (s : Text) : Resolution := behind dictionary s {}

end Resolution

end SparqlMetrics
