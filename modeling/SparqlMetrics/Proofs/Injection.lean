import Mathlib.Logic.Relation
import SparqlMetrics.Proofs.Outcome
import SparqlMetrics.Proofs.Resolution

/-!
# Injected namespaces

A text is read in rounds, each of which puts the declaration that the last failure asks for behind
those in front of the text. An undeclared prefix takes the namespace that the dictionary has for it,
and the base where it has none for the empty label. A missing base declares the base for the empty
label as well, without asking the dictionary for a namespace of that label. So each injected
namespace is the one of the dictionary unless a base is missed before the empty label, and the
dictionary has them apart. Main statement: `Resolution.ofText_binds`.
-/
namespace SparqlMetrics

open Relation

namespace Injection

variable {dictionary : Namespaces} {s : Text} {i after : Injection} {ds es : List Declaration}

/-- What one round puts behind the declarations in front of a text. -/
inductive Round (dictionary : Namespaces) (s : Text) :
    List Declaration → List Declaration → Prop
  | undeclaredPrefix {ds : List Declaration} {label iri : Text} {position : Nat} :
      QueryUnit.parse (Declaration.lines ds ++ s) = .error ⟨.undeclaredPrefix label, position⟩ →
      some label ∉ ds.map Declaration.target → namespaceFor? dictionary label = some iri →
      Round dictionary s ds (ds ++ [.namespace label iri])
  | missingBase {ds : List Declaration} {reference base : Text} {position : Nat} :
      QueryUnit.parse (Declaration.lines ds ++ s) = .error ⟨.missingBase reference, position⟩ →
      none ∉ ds.map Declaration.target → dictionary.base = some base →
      some [] ∈ ds.map Declaration.target → Round dictionary s ds (ds ++ [.base base])
  | missingBaseFirst {ds : List Declaration} {reference base : Text} {position : Nat} :
      QueryUnit.parse (Declaration.lines ds ++ s) = .error ⟨.missingBase reference, position⟩ →
      none ∉ ds.map Declaration.target → dictionary.base = some base →
      some [] ∉ ds.map Declaration.target →
      Round dictionary s ds (ds ++ [.namespace [] base, .base base])

/-- Whether some round declared the base for the empty label while the dictionary has another
namespace for it. -/
def Strays (dictionary : Namespaces) (s : Text) (ds : List Declaration) : Prop :=
  ∃ front base iri reference position, ReflTransGen (Round dictionary s) [] front ∧
    front ++ [.namespace [] base, .base base] <+: ds ∧
    QueryUnit.parse (Declaration.lines front ++ s) = .error ⟨.missingBase reference, position⟩ ∧
    dictionary.base = some base ∧ dictionary.find? [] = some iri ∧ iri ≠ base

/-! ## Rounds -/

/-- To mend a failure is a round. -/
theorem round_of_mend (h : Records dictionary i ds) {e : ParseError}
    (failed : QueryUnit.parse (i.declarations ++ s) = .error e)
    (mended : i.mend dictionary e = .ok after) :
    ∃ es, Round dictionary s ds es ∧ Records dictionary after es := by
  obtain ⟨failure, position⟩ := e
  rw [h.declarations] at failed
  cases failure with
  | malformed => cases mended
  | undeclaredPrefix label =>
      by_cases known : label ∈ i.labels
      · simp [mend, known] at mended
      cases found : namespaceFor? dictionary label with
      | none => simp [mend, known, found] at mended
      | some iri =>
          obtain rfl : i.addPrefix label iri = after := by simpa [mend, known, found] using mended
          exact ⟨_, .undeclaredPrefix failed (by rwa [← h.labels]) found,
            h.addPrefix known (offers_of_namespaceFor? found)⟩
  | missingBase reference =>
      cases known : i.hasBase with
      | true => simp [mend, known] at mended
      | false =>
      cases found : dictionary.base with
      | none => simp [mend, known, found] at mended
      | some base =>
          obtain rfl : i.addBase base = after := by simpa [mend, known, found] using mended
          have fresh : none ∉ ds.map Declaration.target := by simp [← h.hasBase, known]
          by_cases default : [] ∈ i.labels
          · refine ⟨_, .missingBase failed fresh found ((h.labels []).mp default), ?_⟩
            rw [addBase, if_pos default]
            exact h.baseLine known found
          · refine ⟨_, .missingBaseFirst failed fresh found (by rwa [← h.labels]), ?_⟩
            rw [addBase, if_neg default]
            have named := h.addPrefix default (.defaultNamespace found)
            simpa using named.baseLine (by simpa [addPrefix] using known) found

theorem Round.keeps (h : Round dictionary s ds es) : ds <+: es := by
  cases h <;> exact List.prefix_append _ _

theorem kept_of_rounds (h : ReflTransGen (Round dictionary s) ds es) : ds <+: es := by
  induction h with
  | refl => exact List.prefix_rfl
  | tail _ round ih => exact ih.trans round.keeps

/-- A round that misses a prefix declares the namespace that the dictionary has for it. -/
theorem Round.eq_of_undeclaredPrefix (h : Round dictionary s ds es) {label iri : Text} {position : Nat}
    (failed : QueryUnit.parse (Declaration.lines ds ++ s) =
      .error ⟨.undeclaredPrefix label, position⟩)
    (found : namespaceFor? dictionary label = some iri) : es = ds ++ [.namespace label iri] := by
  cases h with
  | undeclaredPrefix failed' _ found' =>
      cases failed.symm.trans failed'
      rw [Option.some.inj (found.symm.trans found')]
  | missingBase failed' => cases failed.symm.trans failed'
  | missingBaseFirst failed' => cases failed.symm.trans failed'

/-- A round that misses the base before the empty label declares the base for both. -/
theorem Round.eq_of_missingBase (h : Round dictionary s ds es) {reference base : Text} {position : Nat}
    (failed : QueryUnit.parse (Declaration.lines ds ++ s) = .error ⟨.missingBase reference, position⟩)
    (found : dictionary.base = some base) (first : some [] ∉ ds.map Declaration.target) :
    es = ds ++ [.namespace [] base, .base base] := by
  cases h with
  | undeclaredPrefix failed' => cases failed.symm.trans failed'
  | missingBase _ _ _ declared => exact absurd declared first
  | missingBaseFirst _ _ found' => rw [Option.some.inj (found.symm.trans found')]

/-- What is injected begins with what the first round injects. -/
theorem exists_first (rounds : ReflTransGen (Round dictionary s) [] ds) (nonempty : ds ≠ []) :
    ∃ es, Round dictionary s [] es ∧ es <+: ds := by
  rcases ReflTransGen.cases_head rounds with rfl | ⟨es, round, rest⟩
  · exact absurd rfl nonempty
  · exact ⟨es, round, kept_of_rounds rest⟩

theorem Strays.mono (h : Strays dictionary s ds) (longer : ds <+: es) : Strays dictionary s es := by
  obtain ⟨front, base, iri, reference, position, rounds, inside, rest⟩ := h
  exact ⟨front, base, iri, reference, position, rounds, inside.trans longer, rest⟩

/-- A namespace behind a round was declared before it, or it is the one of the dictionary, or the
round declared the base for the empty label. -/
theorem Round.namespace_mem (h : Round dictionary s ds es) {label iri : Text}
    (member : .namespace label iri ∈ es) :
    .namespace label iri ∈ ds ∨ namespaceFor? dictionary label = some iri ∨
      label = [] ∧ dictionary.base = some iri ∧ es = ds ++ [.namespace [] iri, .base iri] ∧
        ∃ reference position, QueryUnit.parse (Declaration.lines ds ++ s) =
          .error ⟨.missingBase reference, position⟩ := by
  cases h with
  | undeclaredPrefix _ _ found =>
      rcases List.mem_append.mp member with old | new
      · exact .inl old
      · cases List.mem_singleton.mp new
        exact .inr (.inl found)
  | missingBase =>
      rcases List.mem_append.mp member with old | new
      · exact .inl old
      · cases List.mem_singleton.mp new
  | missingBaseFirst failed _ found _ =>
      rcases List.mem_append.mp member with old | new
      · exact .inl old
      · obtain ⟨rfl, rfl⟩ := by simpa using new
        exact .inr (.inr ⟨rfl, found, rfl, _, _, failed⟩)

/-- Behind some rounds every namespace is the one of the dictionary, or it is the base for the empty
label. -/
theorem namespaceFor?_or_base (h : ReflTransGen (Round dictionary s) [] ds) {label iri : Text}
    (member : .namespace label iri ∈ ds) :
    namespaceFor? dictionary label = some iri ∨ label = [] ∧ dictionary.base = some iri := by
  induction h with
  | refl => cases member
  | tail _ round ih =>
      rcases round.namespace_mem member with old | found | ⟨empty, found, -⟩
      · exact ih old
      · exact .inl found
      · exact .inr ⟨empty, found⟩

/-- Behind rounds that do not stray every namespace is the one of the dictionary. -/
theorem namespaceFor?_of_rounds (h : ReflTransGen (Round dictionary s) [] ds)
    (straight : ¬ Strays dictionary s ds) {label iri : Text}
    (member : .namespace label iri ∈ ds) : namespaceFor? dictionary label = some iri := by
  induction h with
  | refl => cases member
  | tail rounds round ih =>
      rcases round.namespace_mem member with old | found | ⟨rfl, found, rfl, reference, position, failed⟩
      · exact ih (fun strays => straight (strays.mono round.keeps)) old
      · exact found
      · cases known : dictionary.find? [] with
        | none => simp [namespaceFor?, known, found]
        | some other =>
            have same : other = iri := by
              by_contra apart
              exact straight ⟨_, iri, other, reference, position, rounds, List.prefix_rfl, failed,
                found, known, apart⟩
            simp [namespaceFor?, known, same]

theorem namespaceFor?_iff_not_strays (h : ReflTransGen (Round dictionary s) [] ds) :
    (∀ label iri, .namespace label iri ∈ ds → namespaceFor? dictionary label = some iri) ↔
      ¬ Strays dictionary s ds := by
  constructor
  · rintro follows ⟨front, base, iri, _, _, -, inside, -, -, known, apart⟩
    have default := follows [] base (inside.subset (by simp))
    simp only [namespaceFor?, known, Option.some.injEq] at default
    exact apart default
  · exact fun straight _ _ => namespaceFor?_of_rounds h straight

/-! ## Names behind the injected lines -/

/-- A prefix that is missed is spelled as a label. -/
theorem isPrefixLabel_of_undeclared {label : Text} {position : Nat}
    (h : QueryUnit.parse s = .error ⟨.undeclaredPrefix label, position⟩) : IsPrefixLabel label := by
  obtain ⟨S, c, blames⟩ :=
    Grammar.queryUnit_error (Cursor.within_all s) (QueryUnit.queryUnit_error_of_parse h)
  have spelled : c.token.lexeme.Spelled := by
    obtain ⟨tokens, last⟩ := Cursor.spelled_ofStream s
    have here : c.Spelled :=
      ⟨fun t member => tokens t (blames.suffix.subset member), blames.last ▸ last⟩
    exact here.token
  cases blames.raises with
  | undeclaredPrefix here _ =>
      rw [here] at spelled
      exact spelled

/-- The labels that are declared behind some rounds are spelled as labels, each of them once. -/
theorem labels_of_rounds (h : ReflTransGen (Round dictionary s) [] ds) {label : Text}
    (member : some label ∈ ds.map Declaration.target) : IsPrefixLabel label := by
  induction h with
  | refl => cases member
  | tail _ round ih =>
      cases round with
      | undeclaredPrefix failed _ _ =>
          rw [List.map_append, List.mem_append] at member
          rcases member with old | new
          · exact ih old
          · obtain rfl : label = _ := by simpa [Declaration.target] using new
            exact isPrefixLabel_of_undeclared failed
      | missingBase =>
          rw [List.map_append, List.mem_append] at member
          exact ih (member.resolve_right (by simp [Declaration.target]))
      | missingBaseFirst =>
          rw [List.map_append, List.mem_append] at member
          rcases member with old | new
          · exact ih old
          · obtain rfl : label = [] := by simpa [Declaration.target] using new
            exact .inl rfl

end Injection

namespace Declaration

variable {ds : List Declaration} {ns ms : Namespaces} {label iri : Text}

/-- A label that no line declares keeps its namespace. -/
theorem Run.find?_of_not_mem (run : Run ds ns ms) (isLabel : IsPrefixLabel label)
    (free : some label ∉ ds.map target) : ms.find? label = ns.find? label := by
  induction run with
  | nil => rfl
  | cons declares _ ih =>
      rw [List.map_cons, List.mem_cons, not_or] at free
      rw [ih free.2]
      cases declares with
      | @«namespace» key declared _ declares _ _ =>
          refine Namespaces.find?_declare_of_ne (fun same => free.1 ?_) _ _
          rw [eq_of_declaresLabel declares (same ▸ isLabel), same]
          rfl
      | base => rfl

/-- Behind lines that declare each label once, a label has the namespace of its line. -/
theorem Run.find?_of_mem (run : Run ds ns ms) (nodup : (ds.map target).Nodup)
    (isLabel : IsPrefixLabel label) (member : .namespace label iri ∈ ds) :
    ms.find? label = some iri := by
  induction run with
  | nil => cases member
  | cons declares rest ih =>
      rw [List.map_cons, List.nodup_cons] at nodup
      rcases List.mem_cons.mp member with rfl | member
      · cases declares with
        | @«namespace» _ declared _ declares _ _ =>
            obtain rfl := declaresLabel_unique declares (declaresLabel_self isLabel)
            rw [rest.find?_of_not_mem isLabel nodup.1, Namespaces.find?_declare_self]
      · exact ih nodup.2 member

end Declaration

namespace Resolution

open Injection

variable {dictionary : Namespaces} {s : Text} {ds : List Declaration}

theorem rounds_behind {i : Injection} (h : Records dictionary i ds)
    (rounds : ReflTransGen (Round dictionary s) [] ds) :
    ∃ es, ReflTransGen (Round dictionary s) [] es ∧
      Records dictionary (behind dictionary s i).injection es := by
  induction i using behind.induct dictionary s generalizing ds with
  | case1 i unit read =>
      rw [behind_of_ok read]
      exact ⟨ds, rounds, h⟩
  | case2 i e read after mended ih =>
      obtain ⟨es, round, records⟩ := round_of_mend h read mended
      rw [behind_of_mend read mended]
      exact ih records (rounds.tail round)
  | case3 i e read report failed =>
      rw [behind_of_report read failed]
      exact ⟨ds, rounds, h⟩

/-- A label that is injected and that the text does not declare itself has the injected namespace in
the query. -/
theorem find?_of_rounds (sound : dictionary.Declarable) {i : Injection}
    (records : Records dictionary i ds) (rounds : ReflTransGen (Round dictionary s) [] ds)
    {unit : QueryUnit} (accepted : QueryUnit.parse (Declaration.lines ds ++ s) = .ok unit)
    {label iri : Text} (member : .namespace label iri ∈ ds) (free : label ∉ s.prologueLabels) :
    unit.namespaces.find? label = some iri := by
  have named : ∀ d ∈ ds, d.Named := by
    intro d inside
    cases d with
    | «namespace» key iri =>
        exact ⟨key, declaresLabel_self (labels_of_rounds rounds (List.mem_map_of_mem inside))⟩
    | base => trivial
  obtain ⟨ns, run⟩ := Declaration.exists_run
    (fun d inside => declares_of_offers sound (records.offered d inside) (named d inside)) {}
  have injected := run.find?_of_mem records.nodup
    (labels_of_rounds rounds (List.mem_map_of_mem member)) member
  obtain ⟨c, same, place, -⟩ := Grammar.queryUnit_behind_lines run s
  obtain ⟨c', read⟩ := QueryUnit.queryUnit_ok_of_parse accepted
  rw [same] at read
  obtain ⟨ms, b, first, rest⟩ := Parser.bind_eq_ok.mp read
  have declarations := ((Grammar.repeatFrom_eq_ok place.isTerminal).mp first).declarations.1
  rw [Grammar.namespaces_of_queryBehind rest,
    declarations.find?_of_not_mem place.isTerminal (place.ahead ▸ free), injected]

/-- What a dictionary injects in front of a text, round by round. Each namespace is the one of the
dictionary unless some round strays, and then only the empty label has another one, the base. In the
query that is returned an injected label has its injected namespace unless the text declares it
itself; so without a round that strays it does not matter in which order labels and the base are
missed. -/
theorem ofText_binds (dictionary : Namespaces) (s : Text) :
    ∃ ds, (ofText dictionary s).injection.declarations = Declaration.lines ds ∧
      ReflTransGen (Round dictionary s) [] ds ∧
      ((∀ label iri, .namespace label iri ∈ ds → namespaceFor? dictionary label = some iri) ↔
        ¬ Strays dictionary s ds) ∧
      (∀ label iri, .namespace label iri ∈ ds →
        namespaceFor? dictionary label = some iri ∨ label = [] ∧ dictionary.base = some iri) ∧
      (dictionary.Declarable → ∀ unit, (ofText dictionary s).outcome = .ok unit →
        ∀ label iri, .namespace label iri ∈ ds → label ∉ s.prologueLabels →
          unit.namespaces.find? label = some iri) := by
  obtain ⟨ds, rounds, records⟩ := rounds_behind (s := s) (@records_nil dictionary) .refl
  refine ⟨ds, records.declarations, rounds, namespaceFor?_iff_not_strays rounds,
    fun _ _ => namespaceFor?_or_base rounds, fun sound unit h label iri member free => ?_⟩
  have accepted := parse_of_behind h
  rw [records.declarations] at accepted
  exact find?_of_rounds sound records rounds accepted member free

/-- A dictionary that has its default namespace and its base apart. -/
def apartDictionary : Namespaces where
  entries := [([], utf8 "http://ns/")]
  base := some (utf8 "http://b/")

theorem declarable_apartDictionary : apartDictionary.Declarable where
  entries := by
    intro entry member
    rw [List.mem_singleton.mp member]
    exact ⟨by decide, by decide⟩
  base := by
    intro base h
    rw [← Option.some.inj h]
    exact ⟨by decide, by decide⟩

/-- A relative reference in front of a name of the default namespace. -/
def baseFirst : Text := utf8 "ASK \x7b <x> :p ?o \x7d"

/-- A name of the default namespace in front of a relative reference. -/
def nameFirst : Text := utf8 "ASK \x7b ?o :p <x> \x7d"

theorem missingBase_baseFirst :
    QueryUnit.parse baseFirst = .error ⟨.missingBase (utf8 "x"), 6⟩ :=
  QueryUnit.parse_eq_error (by decide +kernel)

theorem undeclaredPrefix_nameFirst :
    QueryUnit.parse nameFirst = .error ⟨.undeclaredPrefix [], 9⟩ :=
  QueryUnit.parse_eq_error (by decide +kernel)

theorem ofText_baseFirst : ∃ unit, ofText apartDictionary baseFirst =
    ⟨({} : Injection).addBase (utf8 "http://b/"), .ok unit⟩ := by
  obtain ⟨unit, read⟩ := QueryUnit.exists_of_isOk
    (s := (({} : Injection).addBase (utf8 "http://b/")).declarations ++ baseFirst) (by decide +kernel)
  exact ⟨unit, (behind_of_mend (i := {}) missingBase_baseFirst rfl).trans (behind_of_ok read)⟩

theorem ofText_nameFirst : ∃ unit, ofText apartDictionary nameFirst =
    ⟨(({} : Injection).addPrefix [] (utf8 "http://ns/")).addBase (utf8 "http://b/"), .ok unit⟩ := by
  let named := ({} : Injection).addPrefix [] (utf8 "http://ns/")
  have missing : QueryUnit.parse (named.declarations ++ nameFirst) =
      .error ⟨.missingBase (utf8 "x"), 34⟩ := QueryUnit.parse_eq_error (by decide +kernel)
  obtain ⟨unit, read⟩ := QueryUnit.exists_of_isOk
    (s := (named.addBase (utf8 "http://b/")).declarations ++ nameFirst) (by decide +kernel)
  exact ⟨unit, (behind_of_mend (i := {}) undeclaredPrefix_nameFirst rfl).trans
    ((behind_of_mend missing rfl).trans (behind_of_ok read))⟩

/-- The two orders give one name two namespaces. -/
theorem ofText_binds_apart :
    (∃ ds unit, (ofText apartDictionary baseFirst).injection.declarations = Declaration.lines ds ∧
      Strays apartDictionary baseFirst ds ∧
      (ofText apartDictionary baseFirst).outcome = .ok unit ∧
      unit.namespaces.find? [] = some (utf8 "http://b/")) ∧
    ∃ ds unit, (ofText apartDictionary nameFirst).injection.declarations = Declaration.lines ds ∧
      (ofText apartDictionary nameFirst).outcome = .ok unit ∧
      unit.namespaces.find? [] = some (utf8 "http://ns/") := by
  constructor
  · obtain ⟨unit, run⟩ := ofText_baseFirst
    obtain ⟨ds, lines, rounds, -, -, names⟩ := ofText_binds apartDictionary baseFirst
    have nonempty : ds ≠ [] := by
      rintro rfl
      rw [run] at lines
      exact absurd (show (addBase (utf8 "http://b/") {}).declarations = [] from lines)
        (by decide)
    obtain ⟨es, round, inside⟩ := exists_first rounds nonempty
    obtain rfl := round.eq_of_missingBase missingBase_baseFirst rfl List.not_mem_nil
    have strays : Strays apartDictionary baseFirst ds :=
      ⟨[], _, utf8 "http://ns/", _, _, .refl, inside, missingBase_baseFirst, rfl, rfl, by decide⟩
    have outcome : (ofText apartDictionary baseFirst).outcome = .ok unit := by rw [run]
    exact ⟨ds, unit, lines, strays, outcome, names declarable_apartDictionary unit outcome []
      (utf8 "http://b/") (inside.subset List.mem_cons_self) (by decide +kernel)⟩
  · obtain ⟨unit, run⟩ := ofText_nameFirst
    obtain ⟨ds, lines, rounds, -, -, names⟩ := ofText_binds apartDictionary nameFirst
    have nonempty : ds ≠ [] := by
      rintro rfl
      rw [run] at lines
      exact absurd (show (addBase (utf8 "http://b/")
        (addPrefix [] (utf8 "http://ns/") {})).declarations = [] from lines) (by decide)
    obtain ⟨es, round, inside⟩ := exists_first rounds nonempty
    obtain rfl := round.eq_of_undeclaredPrefix undeclaredPrefix_nameFirst rfl
    have outcome : (ofText apartDictionary nameFirst).outcome = .ok unit := by rw [run]
    exact ⟨ds, unit, lines, outcome, names declarable_apartDictionary unit outcome []
      (utf8 "http://ns/") (inside.subset List.mem_cons_self) (by decide +kernel)⟩

end Resolution

end SparqlMetrics
