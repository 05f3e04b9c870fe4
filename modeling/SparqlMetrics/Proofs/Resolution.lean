import Mathlib.Data.List.Nodup
import Mathlib.Data.List.Perm.Subperm
import SparqlMetrics.Dataset.Resolution
import SparqlMetrics.Proofs.Declarations
import SparqlMetrics.Proofs.Grammar.LegalQueries

/-!
# Prefix resolution finds what a dictionary can mend

If some prologue of the dictionary's declarations makes a text a query, then so do the declarations
that are put in front of it one by one: the run behind them follows the run behind that prologue up
to the first declaration that is still missing. Main statement: `Resolution.ofText_complete`.
-/
namespace SparqlMetrics

open TwoRuns

/-- A dictionary whose IRIs are absolute and may stand between angle brackets. -/
structure Namespaces.Declarable (dictionary : Namespaces) : Prop where
  entries : ∀ entry ∈ dictionary.entries, Iri.hasScheme entry.2 = true ∧ IsCleanIri entry.2
  base : ∀ base, dictionary.base = some base → Iri.hasScheme base = true ∧ IsCleanIri base

/-- The declarations that a dictionary has: its namespaces under their keys, and its base, which it
has as the default namespace as well. -/
inductive Namespaces.Offers (dictionary : Namespaces) : Declaration → Prop
  | namespace {key iri : Text} : dictionary.find? key = some iri →
      Offers dictionary (.namespace key iri)
  | defaultNamespace {base : Text} : dictionary.base = some base →
      Offers dictionary (.namespace [] base)
  | base {base : Text} : dictionary.base = some base → Offers dictionary (.base base)

/-- Whether the key of a declaration names a prefix. -/
def Declaration.Named : Declaration → Prop
  | .namespace key _ => IsPrefixName key
  | .base _ => True

namespace Injection

variable {dictionary : Namespaces} {i : Injection} {ds : List Declaration}

/-- The declarations that are put in front of a text, each of them once. -/
structure Records (dictionary : Namespaces) (i : Injection) (ds : List Declaration) : Prop where
  declarations : i.declarations = Declaration.lines ds
  offered : ∀ d ∈ ds, dictionary.Offers d
  nodup : (ds.map Declaration.target).Nodup
  labels : ∀ label, label ∈ i.labels ↔ some label ∈ ds.map Declaration.target
  hasBase : i.hasBase = true ↔ none ∈ ds.map Declaration.target

theorem records_nil : Records dictionary {} [] :=
  ⟨rfl, nofun, List.nodup_nil, by simp, by simp⟩

theorem lines_append (ds : List Declaration) (d : Declaration) :
    Declaration.lines (ds ++ [d]) = Declaration.lines ds ++ d.text := by
  simp [Declaration.lines]

theorem Records.addPrefix (h : Records dictionary i ds) {label iri : Text}
    (fresh : label ∉ i.labels) (offers : dictionary.Offers (.namespace label iri)) :
    Records dictionary (i.addPrefix label iri) (ds ++ [.namespace label iri]) where
  declarations := by
    rw [lines_append, ← h.declarations]
    simp [Injection.addPrefix, Declaration.text]
  offered := by
    intro d member
    rcases List.mem_append.mp member with old | new
    · exact h.offered d old
    · rwa [List.mem_singleton.mp new]
  nodup := by
    have absent : some label ∉ ds.map Declaration.target := by rwa [← h.labels]
    rw [List.map_append, List.nodup_append]
    refine ⟨h.nodup, List.nodup_singleton _, ?_⟩
    intro target old target' new same
    obtain rfl : target' = some label := List.mem_singleton.mp new
    exact absent (same ▸ old)
  labels := by
    intro other
    simp only [Injection.addPrefix, List.mem_append, List.map_append, h.labels, List.map_cons,
      List.map_nil, List.mem_singleton, Declaration.target, Option.some.injEq]
  hasBase := by
    rw [List.map_append, List.mem_append, ← h.hasBase]
    simp [Injection.addPrefix, Declaration.target]

theorem Records.baseLine (h : Records dictionary i ds) {base : Text} (fresh : i.hasBase = false)
    (offers : dictionary.base = some base) :
    Records dictionary
      { i with
        declarations := i.declarations ++ utf8 "BASE " ++ Text.angled base ++ utf8 "\n"
        hasBase := true }
      (ds ++ [.base base]) where
  declarations := by
    rw [lines_append, ← h.declarations]
    simp [Declaration.text]
  offered := by
    intro d member
    rcases List.mem_append.mp member with old | new
    · exact h.offered d old
    · rw [List.mem_singleton.mp new]
      exact .base offers
  nodup := by
    have absent : none ∉ ds.map Declaration.target := by simp [← h.hasBase, fresh]
    rw [List.map_append, List.nodup_append]
    refine ⟨h.nodup, List.nodup_singleton _, ?_⟩
    intro target old target' new same
    obtain rfl : target' = none := List.mem_singleton.mp new
    exact absent (same ▸ old)
  labels := by
    intro other
    simp only [List.map_append, List.mem_append, h.labels, List.map_cons, List.map_nil,
      List.mem_singleton, Declaration.target, reduceCtorEq, or_false]
  hasBase := by simp [Declaration.target]

theorem Records.addBase (h : Records dictionary i ds) {base : Text} (fresh : i.hasBase = false)
    (offers : dictionary.base = some base) : ∃ es, Records dictionary (i.addBase base) (ds ++ es) := by
  unfold Injection.addBase
  split
  · exact ⟨_, h.baseLine fresh offers⟩
  · next absent =>
    have named := h.addPrefix absent (.defaultNamespace offers)
    have both := named.baseLine (by simpa [Injection.addPrefix] using fresh) offers
    exact ⟨_, by simpa using both⟩

theorem offers_of_namespaceFor? {label iri : Text} (h : namespaceFor? dictionary label = some iri) :
    dictionary.Offers (.namespace label iri) := by
  unfold namespaceFor? at h
  split at h
  · next found => exact .namespace (h ▸ found)
  · split at h
    · next empty =>
      rw [List.isEmpty_iff.mp empty]
      exact .defaultNamespace h
    · cases h

theorem Records.mend (h : Records dictionary i ds) {e : ParseError} {after : Injection}
    (mended : i.mend dictionary e = .ok after) :
    ∃ es, Records dictionary after (ds ++ es) := by
  unfold Injection.mend at mended
  split at mended
  · split at mended
    · cases mended
    · next fresh =>
      split at mended
      · next found =>
        rw [← Except.ok.inj mended]
        exact ⟨_, h.addPrefix fresh (offers_of_namespaceFor? found)⟩
      · cases mended
  · split at mended
    · cases mended
    · next fresh =>
      split at mended
      · next found =>
        rw [← Except.ok.inj mended]
        exact h.addBase (by simpa using fresh) found
      · cases mended
  · cases mended

/-- Whether a failure is of a declaration that is still missing and that the dictionary has. -/
inductive Mendable (dictionary : Namespaces) (i : Injection) : ParseFailure → Prop
  | undeclaredPrefix {label : Text} : IsPrefixLabel label → label ∉ i.labels →
      (namespaceFor? dictionary label).isSome = true →
      Mendable dictionary i (.undeclaredPrefix label)
  | missingBase (reference : Text) : i.hasBase = false → dictionary.base.isSome = true →
      Mendable dictionary i (.missingBase reference)

/-- The labels of an injection can all be declared. -/
def Labelled (i : Injection) : Prop := ∀ label ∈ i.labels, IsPrefixLabel label

theorem mend_of_mendable {e : ParseError} (h : Mendable dictionary i e.failure)
    (labelled : i.Labelled) : ∃ after, i.mend dictionary e = .ok after ∧ after.Labelled := by
  obtain ⟨failure, position⟩ := e
  cases h with
  | @undeclaredPrefix label isLabel fresh supplied =>
      obtain ⟨iri, found⟩ := Option.isSome_iff_exists.mp supplied
      refine ⟨i.addPrefix label iri, by simp [mend, fresh, found], ?_⟩
      intro other member
      rcases List.mem_append.mp member with old | new
      · exact labelled other old
      · exact List.mem_singleton.mp new ▸ isLabel
  | missingBase reference fresh supplied =>
      obtain ⟨base, found⟩ := Option.isSome_iff_exists.mp supplied
      refine ⟨i.addBase base, by simp [mend, fresh, found], ?_⟩
      intro other member
      unfold addBase at member
      split at member
      · exact labelled other member
      · rcases List.mem_append.mp member with old | new
        · exact labelled other old
        · exact List.mem_singleton.mp new ▸ .inl rfl

/-- Declarations under which a text may be read next to declarations under which it is a query:
whatever they lack can be mended. -/
structure Lacks (dictionary : Namespaces) (i : Injection) (ns ms : Namespaces) : Prop where
  label : ∀ label, IsPrefixLabel label → (ms.find? label).isSome = true →
    (ns.find? label).isSome = true ∨
      label ∉ i.labels ∧ (namespaceFor? dictionary label).isSome = true
  base : ms.base.isSome = true → ns.base.isSome = true ∨
    i.hasBase = false ∧ dictionary.base.isSome = true

/-- Replaces every IRI and every span by one. -/
def shapeOnly : Rewriting where
  iri _ := []
  span _ := {}
  boundVariables_leaf := Element.boundVariables_id

theorem resolve_of_lacks {ns ms : Namespaces} (h : Lacks dictionary i ns ms)
    {reference iri : Text} (resolved : ms.resolve? reference = some iri) :
    (∃ other, ns.resolve? reference = some other ∧ shapeOnly.iri other = shapeOnly.iri iri) ∨
      ns.resolve? reference = none ∧ Mendable dictionary i (.missingBase reference) := by
  by_cases absolute : Iri.hasScheme reference = true
  · exact .inl ⟨reference, ns.resolve?_of_hasScheme absolute, rfl⟩
  · simp only [Namespaces.resolve?, absolute, if_false, Bool.false_eq_true] at resolved ⊢
    cases known : ns.base with
    | some base => exact .inl ⟨Iri.resolve base reference, by simp, rfl⟩
    | none =>
        have declared : ms.base.isSome = true := by
          cases other : ms.base with
          | some base => rfl
          | none => simp [other] at resolved
        rcases h.base declared with same | ⟨fresh, supplied⟩
        · simp [known] at same
        · exact .inr ⟨by simp, .missingBase reference fresh supplied⟩

theorem expand_of_lacks {ns ms : Namespaces} (h : Lacks dictionary i ns ms)
    {label localName iri : Text} (isLabel : IsPrefixLabel label)
    (expanded : ms.expand? label localName = some iri) :
    (∃ other, ns.expand? label localName = some other ∧
      shapeOnly.iri other = shapeOnly.iri iri) ∨
      ns.expand? label localName = none ∧ Mendable dictionary i (.undeclaredPrefix label) := by
  simp only [Namespaces.expand?] at expanded ⊢
  cases known : ns.find? label with
  | some start => exact .inl ⟨start ++ localName, by simp, rfl⟩
  | none =>
      have declared : (ms.find? label).isSome = true := by
        cases other : ms.find? label with
        | some start => rfl
        | none => simp [other] at expanded
      rcases h.label label isLabel declared with same | ⟨fresh, supplied⟩
      · simp [known] at same
      · exact .inr ⟨by simp, .undeclaredPrefix isLabel fresh supplied⟩

/-- The run behind an injection next to a run behind another prologue of the dictionary. -/
def mending (dictionary : Namespaces) (i : Injection) : TwoRuns where
  rewriting := shapeOnly
  escapes := Mendable dictionary i
  related := Lacks dictionary i
  respelled _ _ _ := False
  span_eq _ _ := rfl
  leaf_eq _ := rfl
  resolve h := resolve_of_lacks h
  expand h := expand_of_lacks h
  respell _ h := h.elim

theorem declares_mending : (mending dictionary i).Declares where
  exact h := h
  declare := by
    intro ns ms label iri iri' h _
    refine ⟨fun other isLabel found => ?_, h.base⟩
    by_cases same : label = other
    · subst same
      rw [Namespaces.find?_declare_self]
      exact .inl rfl
    · rw [Namespaces.find?_declare_of_ne same] at found ⊢
      exact h.label other isLabel found
  setBase h _ := ⟨h.label, fun _ => .inl rfl⟩

theorem clean_of_offers (sound : dictionary.Declarable) {d : Declaration}
    (h : dictionary.Offers d) : Iri.hasScheme d.iri = true ∧ IsCleanIri d.iri := by
  cases h with
  | @«namespace» key iri found =>
      obtain ⟨entry, hit, rfl⟩ := Option.map_eq_some_iff.mp found
      exact sound.entries entry (List.mem_of_find?_eq_some hit)
  | defaultNamespace found => exact sound.base _ found
  | base found => exact sound.base _ found

theorem declares_of_offers (sound : dictionary.Declarable) {d : Declaration}
    (h : dictionary.Offers d) (named : d.Named) : ∃ change, d.Declares change := by
  obtain ⟨absolute, clean⟩ := clean_of_offers sound h
  cases d with
  | «namespace» key iri =>
      obtain ⟨label, declares⟩ := named
      exact ⟨_, .namespace declares absolute clean⟩
  | base iri => exact ⟨_, .base absolute clean⟩

theorem isSome_of_offers {d : Declaration} (h : dictionary.Offers d) :
    (∀ label, d.target = some label → (namespaceFor? dictionary label).isSome = true) ∧
      (d.target = none → dictionary.base.isSome = true) := by
  cases h with
  | @«namespace» key iri found =>
      refine ⟨fun label same => ?_, fun noLabel => by cases noLabel⟩
      obtain rfl : key = label := Option.some.inj same
      simp [namespaceFor?, found]
  | @defaultNamespace base found =>
      refine ⟨fun label same => ?_, fun noLabel => by cases noLabel⟩
      obtain rfl : [] = label := Option.some.inj same
      unfold namespaceFor?
      split
      · rfl
      · simp [found]
  | base found =>
      refine ⟨fun label same => ?_, fun _ => by simp [found]⟩
      cases same

theorem named_of_labelled (h : Records dictionary i ds) (labelled : i.Labelled) :
    ∀ d ∈ ds, d.Named := by
  intro d member
  cases d with
  | «namespace» key iri =>
      have recorded : key ∈ i.labels := (h.labels key).mpr (List.mem_map_of_mem member)
      exact ⟨key, declaresLabel_self (labelled key recorded)⟩
  | base iri => trivial

/-- What the injected lines declare lacks only what can be mended. -/
theorem lacks_of_runs (h : Records dictionary i ds) {es : List Declaration}
    (offered : ∀ d ∈ es, dictionary.Offers d) {ns ms : Namespaces}
    (run : Declaration.Run ds {} ns) (run' : Declaration.Run es {} ms) :
    Lacks dictionary i ns ms where
  label := by
    intro label isLabel found
    have unknown : ¬ (({} : Namespaces).find? label).isSome = true := by simp [Namespaces.find?]
    rw [run.isSome_find? isLabel, ← h.labels]
    rcases (run'.isSome_find? isLabel).mp found with old | member
    · exact absurd old unknown
    · obtain ⟨d, hd, same⟩ := List.mem_map.mp member
      have supplied := (isSome_of_offers (offered d hd)).1 label same
      by_cases recorded : label ∈ i.labels
      · exact .inl (.inr recorded)
      · exact .inr ⟨recorded, supplied⟩
  base := by
    intro found
    have unknown : ¬ ({} : Namespaces).base.isSome = true := by simp
    rw [run.isSome_base, ← h.hasBase]
    rcases run'.isSome_base.mp found with old | member
    · exact absurd old unknown
    · obtain ⟨d, hd, same⟩ := List.mem_map.mp member
      have supplied := (isSome_of_offers (offered d hd)).2 same
      cases recorded : i.hasBase with
      | true => exact .inl (.inr rfl)
      | false => exact .inr ⟨rfl, supplied⟩

/-- A text that is a query behind some declarations of the dictionary is one behind the injected
ones, or what they lack is mended. -/
theorem parse_or_mend (sound : dictionary.Declarable) (h : Records dictionary i ds)
    (labelled : i.Labelled) {es : List Declaration}
    (offered : ∀ d ∈ es, dictionary.Offers d ∧ d.Named) {s : Text} {unit : QueryUnit}
    (accepted : QueryUnit.parse (Declaration.lines es ++ s) = .ok unit) :
    (∃ found, QueryUnit.parse (i.declarations ++ s) = .ok found) ∨
      ∃ e after, QueryUnit.parse (i.declarations ++ s) = .error e ∧
        i.mend dictionary e = .ok after ∧ after.Labelled := by
  obtain ⟨ns, run⟩ := Declaration.exists_run
    (fun d member => declares_of_offers sound (h.offered d member)
      (named_of_labelled h labelled d member)) {}
  obtain ⟨ms, run'⟩ := Declaration.exists_run
    (fun d member => declares_of_offers sound (offered d member).1 (offered d member).2) {}
  have lacks := lacks_of_runs h (fun d member => (offered d member).1) run run'
  obtain ⟨c, here, place, count⟩ := Grammar.queryUnit_behind_lines run s
  obtain ⟨d, there, place', count'⟩ := Grammar.queryUnit_behind_lines run' s
  have tracks := (tracks_repeatFrom (tracks_declaration? declares_mending) lacks).bind
    fun ns ms related => (tracks_queryBehind (S := mending dictionary i) related)
  have aligned := aligned_of_at (S := mending dictionary i) place place' (count.trans count'.symm)
  unfold QueryUnit.parse at accepted ⊢
  rw [there] at accepted
  rw [h.declarations, here]
  split at accepted
  · next other d' done =>
    rcases tracks c d aligned other d' done with ⟨found, c', read, -⟩ | ⟨e, failed, mendable⟩
    · rw [read]
      exact .inl ⟨found, rfl⟩
    · obtain ⟨after, mended, still⟩ := mend_of_mendable mendable labelled
      rw [failed]
      exact .inr ⟨e, after, rfl, mended, still⟩
  · cases accepted

theorem target_mem_of_offers {d : Declaration} (h : dictionary.Offers d) :
    d.target ∈ none :: some [] :: dictionary.entries.map fun entry => some entry.1 := by
  cases h with
  | @«namespace» key iri found =>
      obtain ⟨entry, hit, _⟩ := Option.map_eq_some_iff.mp found
      have same : entry.1 = key := by simpa using List.find?_some hit
      have member : some entry.1 ∈ dictionary.entries.map fun entry => some entry.1 :=
        List.mem_map_of_mem (List.mem_of_find?_eq_some hit)
      exact List.mem_cons_of_mem _ (List.mem_cons_of_mem _ (same ▸ member))
  | defaultNamespace => simp [Declaration.target]
  | base => simp [Declaration.target]

theorem Records.length_le (h : Records dictionary i ds) :
    ds.length ≤ dictionary.entries.length + 2 := by
  have within : ds.map Declaration.target ⊆
      none :: some [] :: dictionary.entries.map fun entry => some entry.1 := by
    intro target member
    obtain ⟨d, hd, rfl⟩ := List.mem_map.mp member
    exact target_mem_of_offers (h.offered d hd)
  have le := (List.subperm_of_subset h.nodup within).length_le
  simpa using le

end Injection

namespace Resolution

open Injection

variable {dictionary : Namespaces} {s : Text}

theorem behind_of_ok {i : Injection} {unit : QueryUnit}
    (h : QueryUnit.parse (i.declarations ++ s) = .ok unit) :
    behind dictionary s i = ⟨i, .ok unit⟩ := by
  rw [behind]
  split
  · next other found =>
    rw [found] at h
    rw [Except.ok.inj h]
  · next e found =>
    rw [found] at h
    cases h

theorem behind_of_mend {i after : Injection} {e : ParseError}
    (h : QueryUnit.parse (i.declarations ++ s) = .error e)
    (mended : i.mend dictionary e = .ok after) :
    behind dictionary s i = behind dictionary s after := by
  rw [behind]
  split
  · next unit found =>
    rw [found] at h
    cases h
  · next other found =>
    obtain rfl : other = e := Except.error.inj (found.symm.trans h)
    split
    · next again mendedTo => rw [Except.ok.inj (mendedTo.symm.trans mended)]
    · next report failed =>
      rw [failed] at mended
      cases mended

theorem behind_of_report {i : Injection} {e : ParseError} {report : ErrorReport}
    (h : QueryUnit.parse (i.declarations ++ s) = .error e)
    (failed : i.mend dictionary e = .error report) :
    behind dictionary s i = ⟨i, .error report⟩ := by
  rw [behind]
  split
  · next unit found =>
    rw [found] at h
    cases h
  · next other found =>
    obtain rfl : other = e := Except.error.inj (found.symm.trans h)
    split
    · next after mended =>
      rw [mended] at failed
      cases failed
    · next report' failed' => rw [Except.error.inj (failed'.symm.trans failed)]

theorem records_behind {i : Injection} {ds : List Declaration} (h : Records dictionary i ds) :
    ∃ es, Records dictionary (behind dictionary s i).injection es := by
  induction i using behind.induct dictionary s generalizing ds with
  | case1 i unit read =>
      rw [behind_of_ok read]
      exact ⟨ds, h⟩
  | case2 i e read after mended ih =>
      obtain ⟨es, records⟩ := h.mend mended
      rw [behind_of_mend read mended]
      exact ih records
  | case3 i e read report failed =>
      rw [behind_of_report read failed]
      exact ⟨ds, h⟩

theorem parse_of_behind {i : Injection} {unit : QueryUnit}
    (h : (behind dictionary s i).outcome = .ok unit) :
    QueryUnit.parse ((behind dictionary s i).injection.declarations ++ s) = .ok unit := by
  induction i using behind.induct dictionary s with
  | case1 i other read =>
      rw [behind_of_ok read] at h ⊢
      rw [← Except.ok.inj h]
      exact read
  | case2 i e read after mended ih =>
      rw [behind_of_mend read mended] at h ⊢
      exact ih h
  | case3 i e read report failed =>
      rw [behind_of_report read failed] at h
      cases h

theorem exists_of_accepted (sound : dictionary.Declarable) {es : List Declaration}
    (offered : ∀ d ∈ es, dictionary.Offers d ∧ d.Named) {unit : QueryUnit}
    (accepted : QueryUnit.parse (Declaration.lines es ++ s) = .ok unit) {i : Injection}
    {ds : List Declaration} (h : Records dictionary i ds) (labelled : i.Labelled) :
    ∃ found, (behind dictionary s i).outcome = .ok found := by
  induction i using behind.induct dictionary s generalizing ds with
  | case1 i other read =>
      rw [behind_of_ok read]
      exact ⟨other, rfl⟩
  | case2 i e read after mended ih =>
      obtain ⟨es, records⟩ := h.mend mended
      rcases parse_or_mend sound h labelled offered accepted with
        ⟨found, accepted⟩ | ⟨e', after', failed, mended', still⟩
      · rw [accepted] at read
        cases read
      · obtain rfl : e' = e := Except.error.inj (failed.symm.trans read)
        obtain rfl : after' = after := Except.ok.inj (mended'.symm.trans mended)
        rw [behind_of_mend read mended]
        exact ih records still
  | case3 i e read report failed =>
      rcases parse_or_mend sound h labelled offered accepted with
        ⟨found, accepted⟩ | ⟨e', after, failed', mended, -⟩
      · rw [accepted] at read
        cases read
      · obtain rfl : e' = e := Except.error.inj (failed'.symm.trans read)
        rw [mended] at failed
        cases failed

/-- A dictionary of absolute IRIs mends every text that some of its declarations make a query. It
injects declarations of its own, each target once, and returns the query behind them. -/
theorem ofText_complete {dictionary : Namespaces} (sound : dictionary.Declarable) (s : Text) :
    (∃ ds, (ofText dictionary s).injection.declarations = Declaration.lines ds ∧
      (∀ d ∈ ds, dictionary.Offers d) ∧ (ds.map Declaration.target).Nodup ∧
      ds.length ≤ dictionary.entries.length + 2) ∧
    ((∃ ds unit, (∀ d ∈ ds, dictionary.Offers d ∧ d.Named) ∧
      QueryUnit.parse (Declaration.lines ds ++ s) = .ok unit) →
        ∃ unit, (ofText dictionary s).outcome = .ok unit) ∧
    ∀ unit, (ofText dictionary s).outcome = .ok unit →
      QueryUnit.parse ((ofText dictionary s).injection.declarations ++ s) = .ok unit := by
  refine ⟨?_, ?_, fun unit h => parse_of_behind h⟩
  · obtain ⟨ds, records⟩ := records_behind (s := s) (@records_nil dictionary)
    exact ⟨ds, records.declarations, records.offered, records.nodup, records.length_le⟩
  · rintro ⟨ds, unit, offered, accepted⟩
    exact exists_of_accepted sound offered accepted records_nil nofun

/-- A dictionary with one namespace and a base. -/
def sampleDictionary : Namespaces where
  entries := [(utf8 "ex", utf8 "http://example.org/ns#")]
  base := some (utf8 "http://example.org/data/")

theorem declarable_sampleDictionary : sampleDictionary.Declarable where
  entries := by
    intro entry member
    rw [List.mem_singleton.mp member]
    exact ⟨by decide, by decide⟩
  base := by
    intro base h
    rw [← Option.some.inj h]
    exact ⟨by decide, by decide⟩

/-- A text that misses a prefix, the default namespace and the base. -/
def sampleText : Text := utf8 "SELECT * \x7b ex:a :p <b> \x7d"

theorem ofText_sampleText :
    sampleDictionary.Declarable ∧
      ∃ unit, (ofText sampleDictionary sampleText).outcome = .ok unit ∧
        QueryUnit.parse ((ofText sampleDictionary sampleText).injection.declarations ++
          sampleText) = .ok unit := by
  have complete := ofText_complete declarable_sampleDictionary sampleText
  let ds : List Declaration :=
    [.base (utf8 "http://example.org/data/"), .namespace [] (utf8 "http://example.org/data/"),
      .namespace (utf8 "ex") (utf8 "http://example.org/ns#")]
  have offered : ∀ d ∈ ds, sampleDictionary.Offers d ∧ d.Named := by
    intro d member
    simp only [ds, List.mem_cons, List.not_mem_nil, or_false] at member
    rcases member with rfl | rfl | rfl
    · exact ⟨.base rfl, trivial⟩
    · exact ⟨.defaultNamespace rfl, [], declaresLabel_self (.inl rfl)⟩
    · have isLabel : IsPrefixLabel (utf8 "ex") :=
        .inr ⟨by decide, List.all_eq_true.mp (by decide), by decide, by decide⟩
      exact ⟨.namespace (by decide), utf8 "ex", declaresLabel_self isLabel⟩
  obtain ⟨unit, accepted⟩ :=
    QueryUnit.exists_of_isOk (s := Declaration.lines ds ++ sampleText) (by decide +kernel)
  obtain ⟨found, outcome⟩ := complete.2.1 ⟨ds, unit, offered, accepted⟩
  exact ⟨declarable_sampleDictionary, found, outcome, complete.2.2 found outcome⟩

end Resolution

end SparqlMetrics
