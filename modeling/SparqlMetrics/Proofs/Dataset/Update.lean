import SparqlMetrics.Dataset.Update
import SparqlMetrics.Proofs.Dataset.Analysis
import SparqlMetrics.Proofs.Dataset.RecordLines
import SparqlMetrics.Proofs.Grammar.LegalQueries
import SparqlMetrics.Proofs.Metric.Count
import SparqlMetrics.Proofs.Resolution
import SparqlMetrics.Proofs.Text.Numeral
import SparqlMetrics.Proofs.Token.Lexemes

/-!
# Updates hold what they were made of and nothing else

A statement is read back as its frame around the groups of its rows or namespaces: no IRI, numeral or
type name ends early or runs into what follows. This rests on the bytes of the IRIs, which records,
declarations and the vocabulary keep clean, and on metrics that are not negative; `Writable` is what
a statement needs of an analysis. The main statement is `Update.readBack_statements`.
-/
namespace SparqlMetrics

open Lexeme

namespace Update

/-- The name of a term of the vocabulary in a statement. -/
def term (name : String) : Lexeme := .prefixedName (utf8 "qado") (utf8 name)

def countDatatype : Text := Iri.xsdNamespace ++ utf8 "nonNegativeInteger"

/-- The lexemes of a metric of a query: its value is in decimal digits. -/
def metricLexemes (subject : Text) (entry : Metric × Int) : List Lexeme :=
  [.iri subject, .iri entry.1.iri, .string (Text.ofNat entry.2.toNat) false, .symbol .doubleCaret,
    .iri countDatatype, .symbol .dot]

/-- The lexemes of a row: a group for each metric, then one for the type. -/
def rowLexemes (row : Row) : List Lexeme :=
  row.metrics.entries.flatMap (metricLexemes row.record.iri) ++
    [.iri row.record.iri, term "queryType", .string row.typeName false, .symbol .dot]

def namespaceLexemes (benchmark iri : Text) : List Lexeme :=
  [.iri (benchmark ++ utf8 "-dataset"), term "hasPrefix", .iri iri, .symbol .dot]

/-- The lexemes of a statement with those of its body. -/
def statementLexemes (body : List Lexeme) : List Lexeme :=
  [.keyword .PREFIX (utf8 "PREFIX"), term "", .iri vocabulary, .identifier (utf8 "INSERT"),
      .symbol .lbrace] ++
    body ++ [.symbol .rbrace, .keyword .WHERE (utf8 "WHERE"), .symbol .lbrace, .symbol .rbrace]

section Pieces

variable {t : Text} {ls : List Lexeme}

theorem spells_blank : Spells (utf8 " ") [] := spells_nil.space (by decide)

theorem spells_close : Spells (utf8 " .\n") [.symbol .dot] :=
  spells_blank.append ((spells_mark (s := .dot) (by decide)).append
    (spells_nil.space (b := Byte.newline) (by decide)))

theorem standsFor_escapeByte (b : Byte) : StandsFor (escapeByte b) b := by
  by_cases tab : b = Byte.tab
  · subst tab
    exact standsFor_self (by decide) (by decide) (by decide) (by decide)
  · have same : escapeByte b = SparqlMetrics.escapeByte b := by
      simp [escapeByte, SparqlMetrics.escapeByte, tab, or_comm]
    exact same ▸ Lexeme.standsFor_escapeByte b

theorem standsFor_digit {b : Byte} (h : b.isDigit = true) : StandsFor [b] b := by
  have plain : b ≠ Byte.quote ∧ b ≠ Byte.backslash ∧ b ≠ Byte.newline ∧ b ≠ Byte.carriageReturn :=
    Byte.forall_of_digits (P := fun b => b.isDigit = true → b ≠ Byte.quote ∧ b ≠ Byte.backslash ∧
      b ≠ Byte.newline ∧ b ≠ Byte.carriageReturn) (by decide) b h
  exact standsFor_self plain.1 plain.2.1 plain.2.2.1 plain.2.2.2

theorem spells_numeral (n : Nat) {b : Byte} (other : b ≠ Byte.quote) (ht : Spells (b :: t) ls) :
    Spells (Byte.quote :: (Text.ofNat n ++ Byte.quote :: b :: t))
      (.string (Text.ofNat n) false :: ls) := by
  have digits : ∀ b ∈ Text.ofNat n, StandsFor [b] b :=
    fun b member => standsFor_digit ((Text.isDigits_ofNat n).2 b member)
  have spells := Spells.string digits other ht
  rwa [List.flatMap_singleton'] at spells

theorem clean_metric (m : Metric) : IsCleanIri m.iri := by
  cases m with
  | modifier kind => cases kind <;> decide
  | _ => decide

theorem spells_metricTriple {subject : Text} {entry : Metric × Int} (clean : IsCleanIri subject)
    (nonneg : 0 ≤ entry.2) :
    Spells (metricTriple (Text.angled subject) entry) (metricLexemes subject entry) := by
  obtain ⟨m, value⟩ := entry
  obtain ⟨n, rfl⟩ := Int.eq_ofNat_of_zero_le nonneg
  have datatype : Spells (utf8 "^^" ++ (Text.angled countDatatype ++ utf8 " .\n"))
      [.symbol .doubleCaret, .iri countDatatype, .symbol .dot] :=
    (spells_of_opens opens_doubleCaret).append ((spells_iri (by decide)).append spells_close)
  have value := spells_numeral n (by decide) datatype
  have group := (spells_iri clean).append
    (spells_blank.append ((spells_iri (clean_metric m)).append (spells_blank.append value)))
  simp only [metricTriple, List.append_assoc]
  exact group

/-- The group of a row's type. -/
theorem spells_typeTriple {subject : Text} (name : Text) (clean : IsCleanIri subject) :
    Spells (Text.angled subject ++ utf8 " qado:queryType \"" ++ name.flatMap escapeByte ++
        utf8 "\" .\n")
      [.iri subject, term "queryType", .string name false, .symbol .dot] := by
  have predicate : Spells (utf8 "qado:queryType ") [term "queryType"] :=
    spells_prefixedName (s := utf8 "qado:queryType") rfl
  have value := Spells.string (fun b (_ : b ∈ name) => standsFor_escapeByte b) (by decide)
    spells_close
  have group := (spells_iri clean).append (spells_blank.append (predicate.append value))
  simp only [List.append_assoc]
  exact group

theorem spells_triples {row : Row} (clean : IsCleanIri row.record.iri)
    (nonneg : ∀ m, 0 ≤ row.metrics.value m) : Spells (triples row) (rowLexemes row) := by
  have metrics : Spells (row.metrics.entries.flatMap (metricTriple (Text.angled row.record.iri)))
      (row.metrics.entries.flatMap (metricLexemes row.record.iri)) := by
    apply spells_flatMap
    intro entry member
    obtain ⟨m, _, rfl⟩ := List.mem_map.mp member
    exact spells_metricTriple clean (nonneg m)
  have group := metrics.append (spells_typeTriple row.typeName clean)
  simpa only [triples, rowLexemes, List.append_assoc] using group

theorem spells_namespaceTriple {benchmark iri : Text} (cleanBenchmark : IsCleanIri benchmark)
    (clean : IsCleanIri iri) :
    Spells (namespaceTriple benchmark iri) (namespaceLexemes benchmark iri) := by
  have dataset : IsCleanIri (benchmark ++ utf8 "-dataset") := cleanBenchmark.append (by decide)
  have predicate : Spells (utf8 "qado:hasPrefix ") [term "hasPrefix"] :=
    spells_prefixedName (s := utf8 "qado:hasPrefix") rfl
  have group := (spells_iri dataset).append
    (spells_blank.append (predicate.append ((spells_iri clean).append spells_close)))
  simp only [namespaceTriple, List.append_assoc]
  exact group

theorem spells_header : Spells header [.keyword .PREFIX (utf8 "PREFIX"), term "", .iri vocabulary,
    .identifier (utf8 "INSERT"), .symbol .lbrace] := by
  have label : Spells (utf8 "qado: ") [term ""] := spells_prefixedName (s := utf8 "qado:") rfl
  have opening : Spells (utf8 "\x7b\n") [.symbol .lbrace] :=
    (spells_mark (s := .lbrace) (by decide)).append (spells_nil.space (b := Byte.newline) rfl)
  have verb := (spells_word (utf8 "INSERT") (by decide)).append opening
  have space : Spells (Text.angled vocabulary) [.iri vocabulary] := spells_iri (by decide)
  exact (spells_word (utf8 "PREFIX") (by decide)).append
    (label.append (space.append (verb.space (b := Byte.newline) rfl)))

theorem spells_footer : Spells footer
    [.symbol .rbrace, .keyword .WHERE (utf8 "WHERE"), .symbol .lbrace, .symbol .rbrace] :=
  (spells_mark (s := .rbrace) (by decide)).append (spells_blank.append
    ((spells_word (utf8 "WHERE") (by decide)).append
      ((spells_mark (s := .lbrace) (by decide)).append (spells_mark (s := .rbrace) (by decide)))))

theorem spells_statement {body : Text} (h : Spells body ls) :
    Spells (statement body) (statementLexemes ls) :=
  (spells_header.append h).append spells_footer

end Pieces

section Statements

variable {size : Nat} {a : Analysis}

/-- What can be written into statements: clean IRIs and metrics that are not negative. -/
structure Writable (a : Analysis) : Prop where
  iri : ∀ row ∈ a.rows, IsCleanIri row.record.iri
  nonneg : ∀ row ∈ a.rows, ∀ m, 0 ≤ row.metrics.value m
  benchmark : ∀ entry ∈ a.namespacesByBenchmark.entries, IsCleanIri entry.1
  namespaces : ∀ entry ∈ a.namespacesByBenchmark.entries, ∀ iri ∈ entry.2.members, IsCleanIri iri

/-- What the statements of an analysis are read as. -/
structure ReadBack (size : Nat) (a : Analysis) (written : List Text) : Prop where
  /-- A statement for each batch of rows, then one for each benchmark; none has a fault. -/
  lexemes : written.map (fun s => (TokenStream.ofText s).lexemes) =
    ((batches size a.rows).map fun rows =>
        (statementLexemes (rows.flatMap rowLexemes), Lexeme.endOfInput)) ++
      a.namespacesByBenchmark.entries.map fun (benchmark, declared) =>
        (statementLexemes (declared.members.flatMap (namespaceLexemes benchmark)), Lexeme.endOfInput)
  /-- The batches hold the rows in their order. -/
  rows : (batches size a.rows).flatten = a.rows
  thirteen : ∀ row ∈ a.rows, row.metrics.entries.length = 13
  nonneg : ∀ row ∈ a.rows, ∀ entry ∈ row.metrics.entries, 0 ≤ entry.2

theorem flatten_batches {α : Type} (positive : 0 < size) (items : List α) :
    (batches size items).flatten = items := by
  fun_induction batches size items with
  | case1 items stop => simpa [(Nat.ne_of_gt positive), eq_comm] using stop
  | case2 items more ih => rw [List.flatten_cons, ih, List.take_append_drop]

theorem mem_batch {α : Type} {items batch : List α} {x : α} (positive : 0 < size)
    (member : batch ∈ batches size items) (h : x ∈ batch) : x ∈ items := by
  rw [← flatten_batches positive items]
  exact List.mem_flatten_of_mem member h

theorem readBack_of_writable (positive : 0 < size) (h : Writable a) :
    ∃ written, statements size a = .ok written ∧ ReadBack size a written := by
  refine ⟨_, if_neg (Nat.ne_of_gt positive), ?_, flatten_batches positive a.rows, fun _ _ => rfl, ?_⟩
  · rw [List.map_append, List.map_map, List.map_map]
    congr 1
    · apply List.map_congr_left
      intro rows batch
      have groups : Spells (rows.flatMap triples) (rows.flatMap rowLexemes) := by
        apply spells_flatMap
        intro row member
        have there := mem_batch positive batch member
        exact spells_triples (h.iri row there) (h.nonneg row there)
      exact (spells_statement groups).lexemes
    · apply List.map_congr_left
      intro entry member
      have groups : Spells (entry.2.members.flatMap (namespaceTriple entry.1))
          (entry.2.members.flatMap (namespaceLexemes entry.1)) :=
        spells_flatMap fun iri declared =>
          spells_namespaceTriple (h.benchmark entry member) (h.namespaces entry member iri declared)
      exact (spells_statement groups).lexemes
  · intro row member entry inside
    obtain ⟨m, _, rfl⟩ := List.mem_map.mp inside
    exact h.nonneg row member m

/-- The namespaces of a query that is read under a dictionary are clean, whichever of them stand in
its own prologue. -/
theorem clean_of_mem_declared {dictionary : Namespaces} {r : Record} {iri : Text}
    (h : iri ∈ r.declared dictionary) : IsCleanIri iri := by
  rw [Record.declared] at h
  cases outcome : r.outcome dictionary with
  | error report =>
      rw [outcome] at h
      cases h
  | ok unit =>
      rw [outcome] at h
      have legal := QueryUnit.legal_of_parse (Resolution.parse_of_behind outcome)
      obtain ⟨entry, member, rfl⟩ := List.mem_map.mp h
      exact legal.namespaces.clean entry member

theorem nonneg_of_row? {dictionary : Namespaces} {r : Record} {row : Row}
    (h : r.row? dictionary = some row) (m : Metric) : 0 ≤ row.metrics.value m := by
  rw [Record.row?] at h
  split at h
  · next unit _ =>
    rw [← Option.some.inj h]
    exact unit.measure_nonneg m
  · cases h

theorem writable_ofRecords (dictionary : Namespaces) {records : List Record}
    (safe : ∀ r ∈ records, r.Safe) : Writable (Analysis.ofRecords dictionary records) where
  iri row member := (safe _ (Analysis.record_of_mem_rows dictionary records member)).iri
  nonneg row member m := by
    obtain ⟨r, _, same⟩ := (Analysis.mem_rows_ofRecords dictionary records).mp member
    exact nonneg_of_row? same m
  benchmark entry member := by
    obtain ⟨r, there, _, same⟩ := (Analysis.mem_benchmarks_ofRecords dictionary records).mp
      (List.mem_map_of_mem (f := (·.1)) member)
    exact same ▸ (safe r there).benchmark
  namespaces entry member iri inside := by
    have set := Analysis.namespaces_ofRecords dictionary records member
    split at set
    · rw [set, List.mem_singleton] at inside
      rw [inside]
      decide
    · obtain ⟨r, there, declared⟩ := List.mem_flatMap.mp ((set.2 iri).mp inside)
      split at declared
      · exact clean_of_mem_declared declared
      · cases declared

/-- The statements made of a queries file are read as their frame around the IRIs, values and types
of its queries and the namespaces of its benchmarks, under every dictionary and in batches of every
size. -/
theorem readBack_statements (dictionary : Namespaces) (s : Text) {size : Nat} (positive : 1 ≤ size) :
    let a := Analysis.ofRecords dictionary (Record.readAll s).1
    (∀ row ∈ a.rows, row.record ∈ (Record.readAll s).1) ∧
      ∃ written, statements size a = .ok written ∧ ReadBack size a written := by
  intro a
  constructor
  · intro row member
    exact Analysis.record_of_mem_rows dictionary _ member
  · have safe : ∀ r ∈ (Record.readAll s).1, r.Safe := fun _ => Record.safe_of_mem_readAll
    exact readBack_of_writable positive (writable_ofRecords dictionary safe)

/-- A queries file of one query, which declares a namespace. -/
def sampleFile : Text :=
  utf8 "set-question1/||\\http://e/1/||\\PREFIX e: <http://e/> SELECT * \x7b ?s e:p 2 \x7d"

theorem readBack_sampleFile :
    let a := Analysis.ofRecords {} (Record.readAll sampleFile).1
    1 ≤ 2 ∧ a.rows.length = 1 ∧ a.namespacesByBenchmark.entries.map (·.1) = [utf8 "set"] ∧
      ∃ written, statements 2 a = .ok written ∧ ReadBack 2 a written :=
  ⟨by decide, by decide +kernel, by decide +kernel,
    (readBack_statements {} sampleFile (by decide : 1 ≤ 2)).2⟩

end Statements

end Update

end SparqlMetrics
