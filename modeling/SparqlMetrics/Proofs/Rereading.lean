import SparqlMetrics.Proofs.Grammar.LegalQueries
import SparqlMetrics.Proofs.Reading.Units
import SparqlMetrics.Proofs.Tree.Spanless

/-!
# Reading written queries

A query that is read from a text is written as another text. That text is read again if the query
fits the nesting that is allowed and the triples of its template stay triples, and then as the same
query with its elements drifted; otherwise it is refused. Where no element drifts, the written form
is its own written form. Main statements: `QueryUnit.parse_write_iff`, `QueryUnit.eq_of_parse_write`.
-/
namespace SparqlMetrics

open TwoRuns

namespace Namespaces

def declarations (ns : Namespaces) : List Declaration :=
  ns.entries.map (fun entry => .namespace entry.1 entry.2) ++ (ns.base.map .base).toList

theorem write_eq_lines (ns : Namespaces) : ns.write = Declaration.lines ns.declarations := by
  have newline : utf8 "\n" = [Byte.newline] := by decide
  have base : (ns.base.map fun base => line 0 (utf8 "BASE " ++ Text.angled base)).getD [] =
      Declaration.lines (ns.base.map .base).toList := by
    cases ns.base with
    | none => rfl
    | some base => simp [Declaration.lines, Declaration.text, line, newline, Text.spaces]
  rw [write, base, declarations, Declaration.lines, Declaration.lines, List.flatMap_append,
    List.flatMap_map]
  refine congrArg (· ++ _) (List.flatMap_congr fun entry _ => ?_)
  simp [Declaration.text, line, newline, Text.spaces]

theorem setEntry_of_fresh {label iri : Text} {entries : List (Text × Text)}
    (fresh : label ∉ entries.map (·.1)) : setEntry label iri entries = entries ++ [(label, iri)] := by
  induction entries with
  | nil => rfl
  | cons entry rest ih =>
      rw [List.map_cons, List.mem_cons, not_or] at fresh
      rw [setEntry, if_neg (Ne.symm fresh.1), ih fresh.2, List.cons_append]

/-- The lines of some namespaces declare them behind those that are known. -/
theorem run_entries {known entries : List (Text × Text)}
    (nodup : ((known ++ entries).map (·.1)).Nodup)
    (labels : ∀ entry ∈ entries, IsPrefixLabel entry.1)
    (iris : ∀ entry ∈ entries, Iri.hasScheme entry.2 = true ∧ IsCleanIri entry.2)
    {ds : List Declaration} {ms : Namespaces}
    (run : Declaration.Run ds ⟨known ++ entries, none⟩ ms) :
    Declaration.Run (entries.map (fun entry => .namespace entry.1 entry.2) ++ ds) ⟨known, none⟩
      ms := by
  induction entries generalizing known with
  | nil => simpa using run
  | cons entry rest ih =>
      have fresh : entry.1 ∉ known.map (·.1) := by
        rw [List.map_append, List.map_cons, List.nodup_append] at nodup
        intro member
        exact nodup.2.2 entry.1 member entry.1 List.mem_cons_self rfl
      have declared : (⟨known, none⟩ : Namespaces).declare entry.1 entry.2 =
          ⟨known ++ [entry], none⟩ := by
        rw [declare, setEntry_of_fresh fresh]
      have same : known ++ entry :: rest = known ++ [entry] ++ rest := by simp
      rw [same] at nodup run
      obtain ⟨absolute, clean⟩ := iris entry List.mem_cons_self
      refine .cons (.namespace (declaresLabel_self (labels entry List.mem_cons_self)) absolute clean)
        ?_
      rw [declared]
      exact ih nodup (fun e member => labels e (List.mem_cons_of_mem _ member))
        (fun e member => iris e (List.mem_cons_of_mem _ member)) run

/-- The lines of a prologue declare it. -/
theorem run_declarations {ns : Namespaces} (h : ns.Plain) :
    Declaration.Run ns.declarations {} ns := by
  obtain ⟨entries, base⟩ := ns
  refine @run_entries [] entries h.nodup
    (fun entry member => h.label entry member (h.noColon entry member))
    (fun entry member => ⟨h.absolute entry member, h.clean entry member⟩) _ _ ?_
  cases base with
  | none => exact .nil
  | some base =>
      obtain ⟨absolute, clean⟩ := h.base base rfl
      exact .cons (.base absolute clean) .nil

end Namespaces

namespace Grammar

open SparqlMetrics.Parser Cursor

section Behind
variable {ns : Namespaces} {s : Text} {c d : Cursor}

/-- What is read in front of one text is the same but for the spans. -/
theorem queryBehind_of_at (hc : c.At s) (hd : d.At s) (count : c.blankCount = d.blankCount)
    {unit : QueryUnit} {d' : Cursor} (read : queryBehind ns d = .ok (unit, d')) :
    ∃ again c', queryBehind ns c = .ok (again, c') ∧ again.namespaces = unit.namespaces ∧
      again.query.rewrite .withoutSpans = unit.query.rewrite .withoutSpans := by
  have tracks := tracks_queryBehind (S := .ofOneText) (rfl : ns = ns)
  rcases tracks c d (aligned_of_at hc hd count) unit d' read with
    ⟨again, c', found, same, -⟩ | ⟨_, _, absurdity⟩
  · exact ⟨again, c', found, same.namespaces, same.query⟩
  · exact absurdity.elim

/-- A query has no declaration in front of it. -/
theorem declaration?_stops {q : Query} (place : c.At (q.write ns 0).text) (ms : Namespaces) :
    declaration? ms c = .ok (none, c) := by
  have first : c.token.lexeme.keyword? = some q.form.keyword := by
    rw [place.same_token (at_before _), text_writeQuery]
    show (Text.first _).keyword? = _
    rw [first_form]
    rfl
  have noBase : c.token.lexeme.keyword? ≠ some .BASE := by
    rw [first]
    cases q.form <;> simp [Form.keyword]
  have noPrefix : c.token.lexeme.keyword? ≠ some .PREFIX := by
    rw [first]
    cases q.form <;> simp [Form.keyword]
  rw [declaration?, bind_eq_of_ok (tryKeyword_eq_false noBase)]
  exact bind_eq_of_ok (tryKeyword_eq_false noPrefix)

end Behind

end Grammar

namespace QueryUnit

/-- Whether the text of a query is read again: it fits the nesting that is allowed, and the triples
of its template stay triples. -/
def IsReadable (unit : QueryUnit) : Prop :=
  unit.query.Fits maxNesting ∧ unit.query.form.Keeps

/-- Whether the labels of a query stand before their first colon and its IRIs can stand between angle
brackets. -/
structure IsSpellable (unit : QueryUnit) : Prop where
  labels : ∀ entry ∈ unit.namespaces.entries, Byte.colon ∉ entry.1
  iris : unit.query.Everywhere cleanChecks

variable {s : Text} {unit : QueryUnit}

theorem plain_of_parse (h : parse s = .ok unit) (spellable : unit.IsSpellable) :
    unit.namespaces.Plain :=
  { (legal_of_parse h).namespaces with noColon := spellable.labels }

/-- The lines of a query that is read, in front of the end of the input. -/
theorem fares_write (h : parse s = .ok unit) (spellable : unit.IsSpellable) :
    Grammar.Fares (Grammar.queryBehind unit.namespaces)
      (unit.query.write unit.namespaces 0).text unit.IsReadable
      ⟨unit.namespaces, unit.query.rewrite reread⟩ [] :=
  Grammar.fares_queryBehind (plain_of_parse h spellable)
    (unit.query.everywhere_together printableChecks_together (legal_of_parse h).query
      spellable.iris)
    (legal_of_parse h).resultVariables

/-- A text with a prologue is read as its lines behind the prologue. -/
theorem exists_cursor (plain : unit.namespaces.Plain) :
    ∃ c : Cursor, c.At (unit.query.write unit.namespaces 0).text ∧ c.blankCount = 0 ∧
      parse unit.write = (Grammar.queryBehind unit.namespaces c).map (·.1) := by
  obtain ⟨c, same, place, count⟩ := Grammar.queryUnit_behind_lines
    (Namespaces.run_declarations plain) (unit.query.write unit.namespaces 0).text
  have idle := Grammar.declaration?_stops place unit.namespaces
  have behind : (Parser.repeatFrom Grammar.declaration? unit.namespaces >>= Grammar.queryBehind) c =
      Grammar.queryBehind unit.namespaces c := bind_eq_of_ok (Grammar.repeatUpTo_idle idle _)
  rw [behind, ← Namespaces.write_eq_lines] at same
  refine ⟨c, place, count, ?_⟩
  rw [parse, write, same]
  cases Grammar.queryBehind unit.namespaces c <;> rfl

/-- The text of a readable query is a query again: the one with its elements drifted. -/
theorem parse_write_of_isReadable (h : parse s = .ok unit) (spellable : unit.IsSpellable)
    (readable : unit.IsReadable) :
    ∃ again, parse unit.write = .ok again ∧ again.namespaces = unit.namespaces ∧
      again.query.rewrite .withoutSpans = (unit.query.rewrite reread).rewrite .withoutSpans := by
  obtain ⟨c, place, count, same⟩ := exists_cursor (plain_of_parse h spellable)
  have read := (fares_write h spellable).result readable
  rw [List.append_nil] at read
  obtain ⟨again, c', found, namespaces, query⟩ :=
    Grammar.queryBehind_of_at place (Cursor.at_before _) count read
  refine ⟨again, ?_, namespaces, query⟩
  rw [same, found]
  rfl

/-- The text of a query that is not readable is none. -/
theorem parse_write_of_not_isReadable (h : parse s = .ok unit) (spellable : unit.IsSpellable)
    (unreadable : ¬ unit.IsReadable) : ∃ e, parse unit.write = .error e := by
  obtain ⟨c, place, count, same⟩ := exists_cursor (plain_of_parse h spellable)
  obtain ⟨e, failed⟩ := (fares_write h spellable).failure unreadable
  rw [List.append_nil] at failed
  cases found : Grammar.queryBehind unit.namespaces c with
  | error e =>
      refine ⟨e, ?_⟩
      rw [same, found]
      rfl
  | ok pair =>
      obtain ⟨_, _, read, _⟩ :=
        Grammar.queryBehind_of_at (Cursor.at_before _) place count.symm found
      rw [read] at failed
      cases failed

/-- What is read from the text of a query is the query with its elements drifted. -/
theorem rewrite_of_parse_write (h : parse s = .ok unit) (spellable : unit.IsSpellable)
    {again : QueryUnit} (read : parse unit.write = .ok again) :
    unit.IsReadable ∧ again.namespaces = unit.namespaces ∧
      again.query.rewrite .withoutSpans = (unit.query.rewrite reread).rewrite .withoutSpans := by
  by_cases readable : unit.IsReadable
  · obtain ⟨other, found, namespaces, query⟩ := parse_write_of_isReadable h spellable readable
    obtain rfl : other = again := Except.ok.inj (found.symm.trans read)
    exact ⟨readable, namespaces, query⟩
  · obtain ⟨e, failed⟩ := parse_write_of_not_isReadable h spellable readable
    rw [failed] at read
    cases read

/-- The text of a query is read again if and only if the query is readable, and where every element
keeps its place the text is its own written form and has the metrics of the query. -/
theorem parse_write_iff (h : parse s = .ok unit) (spellable : unit.IsSpellable) :
    ((∃ again, parse unit.write = .ok again) ↔ unit.IsReadable) ∧
      (unit.query.Everywhere keptChecks → ∀ again, parse unit.write = .ok again →
        (∀ m, again.measure m = unit.measure m) ∧ again.write = unit.write) := by
  refine ⟨⟨fun ⟨again, read⟩ => (rewrite_of_parse_write h spellable read).1, fun readable => ?_⟩, ?_⟩
  · obtain ⟨again, read, _⟩ := parse_write_of_isReadable h spellable readable
    exact ⟨again, read⟩
  · intro kept again read
    obtain ⟨_, namespaces, query⟩ := rewrite_of_parse_write h spellable read
    rw [unit.query.rewrite_of_kept kept, unit.query.withoutSpans_idem] at query
    exact ⟨measure_congr namespaces query, write_congr namespaces query⟩

/-- A comparison whose left operand is a comparison is written without the brackets it needs, so the
text is refused. -/
example : ((parse (utf8 "ASK\x7bFILTER((?a=?b)=?c)\x7d")).map fun unit =>
    (parse unit.write).isOk).toOption = some false := by decide +kernel

/-- A triple with a number for its object. -/
def numberTriple (value : Text) (start stop : Nat) : Triple where
  subject := ⟨.var (utf8 "s"), ⟨4, 6⟩⟩
  predicate := ⟨.iri (utf8 "urn:p"), ⟨7, 14⟩⟩
  object := ⟨.literal ⟨value, none, some (Grammar.numberDatatype .integer), true⟩, ⟨start, stop⟩⟩
  span := ⟨4, stop⟩

/-- A test for some triples. -/
def askUnit (triples : List Triple) (stop : Nat) : QueryUnit where
  namespaces := {}
  query :=
    { form := .ask
      resultVariables := [utf8 "s"]
      dataset := []
      root := ⟨.group, triples.map .triple, [], none, ⟨3, stop⟩⟩
      groupBy := []
      having := []
      orderBy := []
      limit := none
      offset := none
      values := none
      span := ⟨0, stop⟩ }

theorem isReadable_askUnit (triples : List Triple) (stop : Nat) :
    (askUnit triples stop).IsReadable := by
  have noTemplate : Form.ask.Keeps := by simp [Form.Keeps]
  have pattern : (askUnit triples stop).query.root.Fits maxNesting := by
    refine (Group.fits_braces rfl).mpr ⟨fun e member => ?_, List.forall_mem_nil _⟩
    obtain ⟨t, _, rfl⟩ := List.mem_map.mp member
    exact Element.fits_triple
  refine ⟨Query.fits_iff.mpr ⟨?_, pattern, ?_, ?_, ?_⟩, noTemplate⟩ <;> simp [askUnit]

theorem everywhere_askUnit {P : NodeChecks} {triples : List Triple} {stop : Nat}
    (query : P.query (askUnit triples stop).query) (group : P.group (askUnit triples stop).query.root)
    (h : ∀ t ∈ triples, (Element.triple t).Everywhere P) :
    (askUnit triples stop).query.Everywhere P := by
  have pattern : (askUnit triples stop).query.root.Everywhere P := by
    refine ⟨group, trivial, Element.everywhereAll_iff.mpr fun e member => ?_, trivial, trivial⟩
    obtain ⟨t, found, rfl⟩ := List.mem_map.mp member
    exact h t found
  refine Query.everywhere_iff.mpr ⟨query, trivial, pattern, ?_, ?_, ?_, trivial⟩ <;> simp [askUnit]

theorem isSpellable_askUnit {triples : List Triple}
    (h : ∀ t ∈ triples, ∃ value start stop, t = numberTriple value start stop) (stop : Nat) :
    (askUnit triples stop).IsSpellable where
  labels := List.forall_mem_nil _
  iris := by
    have clean : IsCleanIri (utf8 "urn:p") ∧ IsCleanIri (Grammar.numberDatatype .integer) := by
      decide
    refine everywhere_askUnit (List.forall_mem_nil _) trivial fun t found => ?_
    obtain ⟨value, start, stop, rfl⟩ := h t found
    exact ⟨trivial, trivial, clean.1, fun _ same => Option.some.inj same ▸ clean.2⟩

/-- A negative number is written with its sign, and the text is its own written form. -/
theorem write_negative : ∃ again,
    parse (askUnit [numberTriple (utf8 "-5") 15 17] 18).write = .ok again ∧
      again.write = (askUnit [numberTriple (utf8 "-5") 15 17] 18).write := by
  have read : parse (utf8 "ASK\x7b?s <urn:p> -5\x7d") =
      .ok (askUnit [numberTriple (utf8 "-5") 15 17] 18) := by
    set_option maxRecDepth 100000 in with_unfolding_all rfl
  obtain ⟨iff, stable⟩ := parse_write_iff read (isSpellable_askUnit (by simp) 18)
  obtain ⟨again, found⟩ := iff.mpr (isReadable_askUnit _ _)
  have kept : (askUnit [numberTriple (utf8 "-5") 15 17] 18).query.Everywhere keptChecks := by
    refine everywhere_askUnit trivial trivial (List.forall_mem_singleton.mpr ?_)
    exact ⟨fun _ => by decide, trivial, trivial, trivial⟩
  exact ⟨again, found, (stable kept again found).2⟩

/-- What is read from the text of a query has its declarations, and but for the spans it is the query
with its elements drifted: the query itself where every element keeps its place. -/
theorem eq_of_parse_write (h : parse s = .ok unit) (spellable : unit.IsSpellable)
    {again : QueryUnit} (read : parse unit.write = .ok again) :
    again.namespaces = unit.namespaces ∧
      again.query.rewrite .withoutSpans = (unit.query.rewrite reread).rewrite .withoutSpans ∧
      (unit.query.Everywhere keptChecks →
        again.query.rewrite .withoutSpans = unit.query.rewrite .withoutSpans) := by
  obtain ⟨_, namespaces, query⟩ := rewrite_of_parse_write h spellable read
  refine ⟨namespaces, query, fun kept => ?_⟩
  rw [query, unit.query.rewrite_of_kept kept, unit.query.withoutSpans_idem]

/-- A positive number behind a comma gives its sign to the predicate when it is read again, so what
is read is another query. -/
theorem drift_positive : ∃ unit again,
    parse (utf8 "ASK\x7b?s <urn:p> 1,+5\x7d") = .ok unit ∧ parse unit.write = .ok again ∧
      again.query.rewrite .withoutSpans ≠ unit.query.rewrite .withoutSpans := by
  have read : parse (utf8 "ASK\x7b?s <urn:p> 1,+5\x7d") =
      .ok (askUnit [numberTriple (utf8 "1") 15 16, numberTriple (utf8 "+5") 17 19] 20) := by
    set_option maxRecDepth 100000 in with_unfolding_all rfl
  have spellable : (askUnit [numberTriple (utf8 "1") 15 16, numberTriple (utf8 "+5") 17 19]
      20).IsSpellable := isSpellable_askUnit (by simp) 20
  obtain ⟨again, found, _⟩ := parse_write_of_isReadable read spellable (isReadable_askUnit _ _)
  refine ⟨_, again, read, found, fun same => ?_⟩
  obtain ⟨_, query, _⟩ := eq_of_parse_write read spellable found
  have elements := congrArg (fun q : Query => q.root.elements) (query.symm.trans same)
  cases (List.cons.inj (List.cons.inj elements).2).1

end QueryUnit

end SparqlMetrics
