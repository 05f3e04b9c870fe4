import SparqlMetrics.Proofs.Iri.Places
import SparqlMetrics.Proofs.PrintedIris

/-!
# Absolute queries

A prologue declares namespaces and bases one after the other, each resolved under the ones before it.
What is known at any place along it is absolute, so every reference of the text, in the prologue and
in the query, is resolved against an absolute base, and every IRI that is built is absolute. Such an
IRI stays as it is when it is resolved again, under any declarations. Main statement:
`QueryUnit.fixed_of_parse`.
-/
namespace SparqlMetrics

/-- Whether an IRI is absolute and stays as it is wherever it is resolved again. -/
def Iri.IsFixed (iri : Text) : Prop :=
  hasScheme iri = true ∧ ∀ ns : Namespaces, ns.resolve? iri = some iri

theorem Iri.isFixed_of_hasScheme {iri : Text} (absolute : hasScheme iri = true) : IsFixed iri :=
  ⟨absolute, fun ns => Namespaces.resolve?_of_hasScheme ns absolute⟩

/-- Whether every reference is resolved against the base, if there is one, by places that the base
has. -/
def Namespaces.StaysInBounds (ns : Namespaces) : Prop :=
  ∀ base, ns.base = some base →
    ∀ reference, Iri.resolveAt? base reference = some (Iri.resolve base reference)

namespace Grammar

/-- The declarations that are known along the prologue of a text, each with the place up to which
the prologue has been read. -/
inductive Knows (s : Text) : Namespaces → Cursor → Prop
  | start : Knows s {} (Cursor.ofStream (TokenStream.ofText s))
  | step {ns ns' : Namespaces} {c c' : Cursor} : Knows s ns c →
      ReadsDeclaration ns c (some ns') c' → Knows s ns' c'

section Known
variable {s : Text} {ns ms : Namespaces} {c d : Cursor}

/-- One declaration under legal ones leaves them legal, and the prologue behind it is spelled. -/
theorem ReadsDeclaration.legal {ns' : Namespaces} {c' : Cursor}
    (h : ReadsDeclaration ns c (some ns') c') (legal : ns.Legal) (spelled : c.Spelled) :
    ns'.Legal ∧ c'.Spelled := by
  obtain ⟨result, behind⟩ := yields_declaration? ns legal c _ _ spelled (declaration?_eq_ok.mpr h)
  exact ⟨result ns' rfl, behind⟩

theorem Knows.legal (h : Knows s ns c) : ns.Legal ∧ c.Spelled := by
  induction h with
  | start => exact ⟨Namespaces.legal_empty, Cursor.spelled_ofStream s⟩
  | step _ read ih => exact read.legal ih.1 ih.2

/-- The rest of a prologue keeps to the declarations that are known along it. -/
theorem ReadsPrologue.knows (h : ReadsPrologue ns c ms d) (known : Knows s ns c) : Knows s ms d := by
  induction h with
  | stop => exact known
  | step read _ ih => exact ih (known.step read)

theorem Knows.staysInBounds (h : Knows s ns c) : ns.StaysInBounds :=
  fun base found => Iri.resolveAt?_eq (h.legal.1.base base found).1

end Known

end Grammar

namespace QueryUnit

/-- Every IRI of a query that is read is absolute and stays as it is when it is resolved again: the
base, the namespaces, and the IRIs of the query at every depth. On the way every reference was
resolved by places that the base of that moment has. -/
theorem fixed_of_parse {s : Text} {unit : QueryUnit} (h : parse s = .ok unit) :
    (∀ base, unit.namespaces.base = some base → Iri.IsFixed base) ∧
    (∀ entry ∈ unit.namespaces.entries, Iri.IsFixed entry.2) ∧
    unit.query.Everywhere (iriChecks Iri.IsFixed) ∧
    (∃ c, Grammar.Knows s unit.namespaces c) ∧
    ∀ ns c, Grammar.Knows s ns c → ns.StaysInBounds := by
  have legal := legal_of_parse h
  have absolute := Query.everywhere_mono legalChecks_implies_hasScheme _ legal.query
  obtain ⟨c, _, prologue, _⟩ := parse_eq_ok.mp h
  exact ⟨fun base found => Iri.isFixed_of_hasScheme (legal.namespaces.base base found).1,
    fun entry member => Iri.isFixed_of_hasScheme (legal.namespaces.absolute entry member),
    Query.everywhere_mono (iriChecks_implies fun _ => Iri.isFixed_of_hasScheme) _ absolute,
    ⟨c, prologue.knows .start⟩, fun _ _ known => known.staysInBounds⟩

/-- A test with a base that is relative to the one before it, and a namespace declared between them. -/
def rebasedText : Text :=
  utf8 "BASE <http://b/x> PREFIX p: <y#> BASE <z/> ASK FROM <g> \x7b ?s p:q \"1\"^^<t> \x7d"

theorem fixed_rebasedText : ∃ unit, parse rebasedText = .ok unit ∧
    unit.namespaces = ⟨[(utf8 "p", utf8 "http://b/y#")], some (utf8 "http://b/z/")⟩ ∧
    Iri.IsFixed (utf8 "http://b/z/") ∧ Iri.IsFixed (utf8 "http://b/y#") ∧
    unit.query.Everywhere (iriChecks Iri.IsFixed) ∧ unit.namespaces.StaysInBounds := by
  obtain ⟨unit, read⟩ := exists_of_isOk (s := rebasedText) (by decide +kernel)
  have declared : unit.namespaces =
      ⟨[(utf8 "p", utf8 "http://b/y#")], some (utf8 "http://b/z/")⟩ := by
    have found : (parse rebasedText).toOption.map (·.namespaces) =
        some ⟨[(utf8 "p", utf8 "http://b/y#")], some (utf8 "http://b/z/")⟩ := by decide +kernel
    rw [read] at found
    exact Option.some.inj found
  obtain ⟨base, entries, query, ⟨c, known⟩, bounds⟩ := fixed_of_parse read
  exact ⟨unit, read, declared, base _ (by rw [declared]),
    entries (utf8 "p", utf8 "http://b/y#") (by rw [declared]; exact List.mem_cons_self), query,
    bounds _ c known⟩

end QueryUnit

end SparqlMetrics
