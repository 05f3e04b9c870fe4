import SparqlMetrics.Proofs.Reading.Limits
import SparqlMetrics.Proofs.Reading.Paths
import SparqlMetrics.Proofs.Tree.Spanless

/-!
# Reading written paths again

A path whose steps are clean absolute IRIs is written under any namespaces with readable labels, and
its text is read as the same path, whatever the namespaces stand for. Only a path that nests too
deeply is refused, and for that reason. Main statement: `Path.path_write_space`.
-/
namespace SparqlMetrics.Path

open SparqlMetrics.Grammar TwoRuns Cursor

variable {ns : Namespaces} {p : Path}

/-- A path and a space behind it, read to the end. -/
theorem fares_path (labelled : ns.Labelled) (formed : p.IsFormed) (clean : p.Clean) (n : Nat) :
    Fares (path (Level.ofAllowance ns n)) (p.write ns) (p.nesting ≤ n) (p.rewrite .withoutSpans)
      [Byte.space] := by
  have ending : Text.first [Byte.space] = .endOfInput := by
    rw [Text.first_space [] (by decide)]
    exact Text.first_nil
  have ends : EndsPath false p [Byte.space] := by
    apply EndsPath.of_kept
    · exact stopsAt_cons (by decide)
    · intro _
      rw [ending]
      rfl
  have read := (readable_path labelled formed clean).path n ends (by rw [ending]; nofun)
    (by rw [ending]; nofun)
  rwa [plusText, if_neg (by decide), List.append_nil] at read

/-- The written form of a path, with a space behind it, is read to its end and gives the path back
up to spans, if the path nests no deeper than allowed; otherwise the reader stops at that limit. -/
theorem path_write_space (labelled : ns.Labelled) (formed : p.IsFormed) (clean : p.Clean) (n : Nat) :
    let read := path (Level.ofAllowance ns n)
      (ofStream (TokenStream.ofText (p.write ns ++ [Byte.space])))
    (p.nesting ≤ n → ∃ again c', read = .ok (again, c') ∧
      again.rewrite .withoutSpans = p.rewrite .withoutSpans ∧ c'.ahead = []) ∧
    (n < p.nesting → ∃ e, read = .error e ∧ e.failure = .malformed .nestingTooDeep) := by
  have reads := fares_path labelled formed clean
  have alike : ofOneText.LevelTracks (Level.ofAllowance ns n) (Level.ofAllowance ns n) :=
    levelTracks_ofAllowance rfl (Nat.le_refl n)
  have place := at_ofStream (p.write ns ++ [Byte.space])
  constructor
  · intro fits
    obtain ⟨again, c', read, same, noRest⟩ := (reads n).ok_of_at fits (tracks_path alike) place rfl
    rw [Text.tokens_space [] (by decide), Text.tokens_nil] at noRest
    refine ⟨again, c', read, ?_, List.eq_nil_of_length_eq_zero noRest⟩
    calc again.rewrite .withoutSpans = (p.rewrite .withoutSpans).rewrite .withoutSpans := same
      _ = p.rewrite .withoutSpans := p.withoutSpans_idem
  · intro deep
    have more := levelTracks_truncated ns (Nat.le_of_lt deep)
    exact (reads n).tooDeep_of_at (Nat.not_le.mpr deep) (reads p.nesting) (Nat.le_refl _)
      (tracks_path alike) (tracks_path more) place rfl

/-- A namespace under a label. -/
def nestedNamespaces : Namespaces := { entries := [(utf8 "e", utf8 "urn:e:")] }

/-- The path `^(e:p/!(a|^<urn:q>))+`. -/
def nestedPath : Path :=
  .inverse (.repeated .oneOrMore (.join .sequence (.step ⟨.iri (utf8 "urn:e:p"), {}⟩)
    (.negated (.join .alternative (.step ⟨.iri Iri.rdfType, {}⟩)
      (.inverse (.step ⟨.iri (utf8 "urn:q"), {}⟩))))))

/-- One nesting is needed to read a repeated sequence again, and one is enough. -/
theorem path_write_nested :
    nestedPath.write nestedNamespaces = utf8 "^(e:p/!(a|^<urn:q>))+" ∧
    (∃ again c', path (Level.ofAllowance nestedNamespaces 1)
        (ofStream (TokenStream.ofText (nestedPath.write nestedNamespaces ++ [Byte.space]))) =
          .ok (again, c') ∧
      again.rewrite .withoutSpans = nestedPath.rewrite .withoutSpans ∧ c'.ahead = []) ∧
    ∃ e, path (Level.ofAllowance nestedNamespaces 0)
        (ofStream (TokenStream.ofText (nestedPath.write nestedNamespaces ++ [Byte.space]))) =
          .error e ∧
      e.failure = .malformed .nestingTooDeep := by
  have labelled : nestedNamespaces.Labelled := by
    constructor
    · decide
    · intro entry member
      rw [List.mem_singleton.mp member]
      apply Or.inr
      decide +kernel
  have clean : nestedPath.Clean := by
    have each : ∀ iri ∈ [utf8 "urn:e:p", Iri.rdfType, utf8 "urn:q"],
        Iri.hasScheme iri = true ∧ IsCleanIri iri := by decide
    exact each
  have formed : nestedPath.IsFormed := ⟨rfl, .inr ⟨rfl, rfl⟩⟩
  have deep : nestedPath.nesting = 1 := by decide
  constructor
  · decide
  · exact ⟨(path_write_space labelled formed clean 1).1 (Nat.le_of_eq deep),
      (path_write_space labelled formed clean 0).2 (deep ▸ Nat.zero_lt_one)⟩

end SparqlMetrics.Path
