import SparqlMetrics.Namespaces
import SparqlMetrics.Proofs.Token.Spelling

/-!
# Absolute IRIs

Resolving keeps the scheme of the base, so every reference that is read under absolute declarations
is absolute. It also keeps forbidden bytes out: a resolved reference has only bytes of the base, of
the reference and the marks between them. Main statements: `Iri.hasScheme_resolve`,
`Namespaces.Legal.declare`.
-/
namespace SparqlMetrics

namespace Iri

theorem endsScheme_append {s : Text} (t : Text) (h : endsScheme s = true) :
    endsScheme (s ++ t) = true := by
  induction s with
  | nil => simp [endsScheme] at h
  | cons b rest ih =>
      simp only [endsScheme, List.cons_append, Bool.or_eq_true, Bool.and_eq_true] at h ⊢
      exact h.imp_right fun both => ⟨both.1, ih both.2⟩

theorem hasScheme_append {s : Text} (t : Text) (h : hasScheme s = true) :
    hasScheme (s ++ t) = true := by
  cases s with
  | nil => simp [hasScheme] at h
  | cons b rest =>
      simp only [hasScheme, List.cons_append, Bool.and_eq_true] at h ⊢
      exact ⟨h.1, endsScheme_append t h.2⟩

theorem isSchemeByte_of_isAlpha {b : Byte} (h : b.isAlpha = true) : isSchemeByte b = true := by
  simp [isSchemeByte, Byte.isAlnum, h]

/-- Cutting a text at a byte that no scheme holds keeps the scheme. -/
theorem endsScheme_takeWhile {p : Byte → Bool} (keep : ∀ b, isSchemeByte b = true → p b = true)
    (colon : p Byte.colon = true) {s : Text} (h : endsScheme s = true) :
    endsScheme (s.takeWhile p) = true := by
  induction s with
  | nil => simp [endsScheme] at h
  | cons b rest ih =>
      simp only [endsScheme, Bool.or_eq_true, beq_iff_eq, Bool.and_eq_true] at h
      rcases h with rfl | ⟨hb, hrest⟩
      · simp [colon, endsScheme]
      · simp [keep b hb, endsScheme, hb, ih hrest]

theorem hasScheme_takeWhile {p : Byte → Bool} (keep : ∀ b, isSchemeByte b = true → p b = true)
    (colon : p Byte.colon = true) {s : Text} (h : hasScheme s = true) :
    hasScheme (s.takeWhile p) = true := by
  cases s with
  | nil => simp [hasScheme] at h
  | cons b rest =>
      simp only [hasScheme, Bool.and_eq_true] at h
      have head := keep b (isSchemeByte_of_isAlpha h.1)
      simp [head, hasScheme, h.1, endsScheme_takeWhile keep colon h.2]

theorem ne_of_isSchemeByte {b c : Byte} (hb : isSchemeByte b = true)
    (hc : isSchemeByte c = false) : (b != c) = true := by
  simp only [bne_iff_ne]
  rintro rfl
  simp [hc] at hb

theorem hasScheme_withoutFragment {iri : Text} (h : hasScheme iri = true) :
    hasScheme (withoutFragment iri) = true :=
  hasScheme_takeWhile (fun _ hb => ne_of_isSchemeByte hb (by decide)) (by decide) h

theorem hasScheme_withoutQuery {iri : Text} (h : hasScheme iri = true) :
    hasScheme (withoutQuery iri) = true :=
  hasScheme_takeWhile (fun _ hb => ne_of_isSchemeByte hb (by decide)) (by decide)
    (hasScheme_withoutFragment h)

theorem hasScheme_scheme {iri : Text} (rest : Text) (h : hasScheme iri = true) :
    hasScheme (scheme iri ++ Byte.colon :: rest) = true := by
  have ends : ∀ s : Text, endsScheme s = true →
      endsScheme (s.takeWhile (· != Byte.colon) ++ Byte.colon :: rest) = true := by
    intro s
    induction s with
    | nil => simp [endsScheme]
    | cons b more ih =>
        intro hs
        by_cases colon : b = Byte.colon
        · simp [colon, endsScheme]
        · simp only [endsScheme, colon, beq_iff_eq, Bool.or_eq_true, Bool.and_eq_true,
            false_or] at hs
          simp [colon, endsScheme, hs.1, ih hs.2]
  cases iri with
  | nil => simp [hasScheme] at h
  | cons b more =>
      simp only [hasScheme, Bool.and_eq_true] at h
      have head : (b != Byte.colon) = true := by
        simp only [bne_iff_ne]
        rintro rfl
        exact absurd h.1 (by decide)
      simp [scheme, head, hasScheme, h.1, ends more h.2]

theorem hasScheme_root {iri : Text} (h : hasScheme iri = true) : hasScheme (root iri) = true :=
  hasScheme_scheme _ h

theorem hasScheme_resolve {base : Text} (reference : Text) (h : hasScheme base = true) :
    hasScheme (resolve base reference) = true := by
  unfold resolve merge
  split
  · exact hasScheme_withoutFragment h
  · split
    · exact hasScheme_append _ (hasScheme_withoutFragment h)
    split
    · split
      · exact hasScheme_scheme _ h
      · exact hasScheme_append _ (hasScheme_root h)
    split
    · exact hasScheme_append _ (hasScheme_withoutQuery h)
    · simp only
      split
      · exact hasScheme_append _ (hasScheme_root h)
      · rw [List.append_assoc]
        exact hasScheme_append _ (hasScheme_root h)

end Iri

section Clean

theorem IsCleanIri.append {s t : Text} (hs : IsCleanIri s) (ht : IsCleanIri t) :
    IsCleanIri (s ++ t) := by
  intro b hb
  rcases List.mem_append.mp hb with hb | hb
  · exact hs b hb
  · exact ht b hb

theorem IsCleanIri.cons {b : Byte} {s : Text} (hb : Lexeme.isIriForbidden b = false)
    (more : b ≠ Byte.greater) (hs : IsCleanIri s) : IsCleanIri (b :: s) := by
  intro c hc
  rcases List.mem_cons.mp hc with rfl | hc
  · exact ⟨hb, more⟩
  · exact hs c hc

theorem IsCleanIri.of_subset {s t : Text} (hs : IsCleanIri s) (sub : t ⊆ s) : IsCleanIri t :=
  fun b hb => hs b (sub hb)

theorem clean_withoutFragment {iri : Text} (h : IsCleanIri iri) :
    IsCleanIri (Iri.withoutFragment iri) :=
  h.of_subset (List.takeWhile_subset _)

theorem clean_withoutQuery {iri : Text} (h : IsCleanIri iri) : IsCleanIri (Iri.withoutQuery iri) :=
  (clean_withoutFragment h).of_subset (List.takeWhile_subset _)

theorem clean_schemeSpecific {iri : Text} (h : IsCleanIri iri) :
    IsCleanIri (Iri.schemeSpecific iri) :=
  h.of_subset fun _ hb => (List.dropWhile_sublist _).subset (List.mem_of_mem_tail hb)

theorem clean_authority {iri : Text} (h : IsCleanIri iri) : IsCleanIri (Iri.authority iri) := by
  have specific := clean_schemeSpecific h
  unfold Iri.authority
  split
  · next a b rest same =>
    rw [same] at specific
    split
    · refine specific.of_subset ?_
      intro c hc
      rcases List.mem_cons.mp hc with rfl | hc
      · exact List.mem_cons_self
      rcases List.mem_cons.mp hc with rfl | hc
      · exact List.mem_cons_of_mem _ List.mem_cons_self
      · exact List.mem_cons_of_mem _ (List.mem_cons_of_mem _ (List.takeWhile_subset _ hc))
    · exact fun _ hb => absurd hb List.not_mem_nil
  · exact fun _ hb => absurd hb List.not_mem_nil

theorem clean_scheme {iri rest : Text} (h : IsCleanIri iri) (hr : IsCleanIri rest) :
    IsCleanIri (Iri.scheme iri ++ Byte.colon :: rest) :=
  (h.of_subset (List.takeWhile_subset _)).append (hr.cons (by decide) (by decide))

theorem clean_root {iri : Text} (h : IsCleanIri iri) : IsCleanIri (Iri.root iri) :=
  clean_scheme h (clean_authority h)

theorem clean_directory {path : Text} (h : IsCleanIri path) : IsCleanIri (Iri.directory path) :=
  h.of_subset fun _ hb =>
    List.mem_reverse.mp ((List.dropWhile_sublist _).subset (List.mem_reverse.mp hb))

theorem clean_resolve {base reference : Text} (hb : IsCleanIri base) (hr : IsCleanIri reference) :
    IsCleanIri (Iri.resolve base reference) := by
  unfold Iri.resolve Iri.merge
  split
  · exact clean_withoutFragment hb
  · split
    · exact (clean_withoutFragment hb).append hr
    split
    · split
      · exact clean_scheme hb hr
      · exact (clean_root hb).append hr
    split
    · exact (clean_withoutQuery hb).append hr
    · have folder := clean_directory
        ((clean_withoutQuery hb).of_subset (List.drop_subset (Iri.root base).length _))
      simp only
      split
      · exact (clean_root hb).append (hr.cons (by decide) (by decide))
      · exact ((clean_root hb).append folder).append hr

end Clean

namespace Namespaces

/-- Declarations as a prologue makes them: each label once, absolute IRIs that angle brackets can
hold, and labels that are spelled as labels unless they hold a colon. -/
structure Legal (ns : Namespaces) : Prop where
  nodup : (ns.entries.map (·.1)).Nodup
  label : ∀ entry ∈ ns.entries, Byte.colon ∉ entry.1 → IsPrefixLabel entry.1
  absolute : ∀ entry ∈ ns.entries, Iri.hasScheme entry.2 = true
  clean : ∀ entry ∈ ns.entries, IsCleanIri entry.2
  base : ∀ base, ns.base = some base → Iri.hasScheme base = true ∧ IsCleanIri base

theorem legal_empty : Legal {} where
  nodup := List.nodup_nil
  label _ h := absurd h List.not_mem_nil
  absolute _ h := absurd h List.not_mem_nil
  clean _ h := absurd h List.not_mem_nil
  base _ h := nomatch h

theorem mem_setEntry {label iri : Text} {entries : List (Text × Text)} {entry : Text × Text}
    (h : entry ∈ setEntry label iri entries) : entry = (label, iri) ∨ entry ∈ entries := by
  induction entries with
  | nil => exact .inl (List.mem_singleton.mp h)
  | cons first rest ih =>
      simp only [setEntry] at h
      split at h
      · rcases List.mem_cons.mp h with same | h
        · exact .inl same
        · exact .inr (List.mem_cons_of_mem _ h)
      · rcases List.mem_cons.mp h with same | h
        · exact .inr (same ▸ List.mem_cons_self)
        · exact (ih h).imp_right (List.mem_cons_of_mem _)

theorem nodup_setEntry {label iri : Text} {entries : List (Text × Text)}
    (h : (entries.map (·.1)).Nodup) : ((setEntry label iri entries).map (·.1)).Nodup := by
  induction entries with
  | nil => simp [setEntry]
  | cons first rest ih =>
      rw [List.map_cons, List.nodup_cons] at h
      simp only [setEntry]
      split
      · next same => simpa [← same] using h
      · next other =>
        rw [List.map_cons, List.nodup_cons]
        refine ⟨fun member => ?_, ih h.2⟩
        obtain ⟨entry, hentry, same⟩ := List.mem_map.mp member
        rcases mem_setEntry hentry with rfl | hentry
        · exact other same.symm
        · exact h.1 (List.mem_map.mpr ⟨entry, hentry, same⟩)

theorem Legal.declare {ns : Namespaces} (h : ns.Legal) {label iri : Text}
    (spelled : Byte.colon ∉ label → IsPrefixLabel label) (absolute : Iri.hasScheme iri = true)
    (clean : IsCleanIri iri) : (ns.declare label iri).Legal where
  nodup := nodup_setEntry h.nodup
  label entry member := by
    rcases mem_setEntry member with rfl | member
    · exact spelled
    · exact h.label entry member
  absolute entry member := by
    rcases mem_setEntry member with rfl | member
    · exact absolute
    · exact h.absolute entry member
  clean entry member := by
    rcases mem_setEntry member with rfl | member
    · exact clean
    · exact h.clean entry member
  base := h.base

theorem Legal.setBase {ns : Namespaces} (h : ns.Legal) {iri : Text}
    (absolute : Iri.hasScheme iri = true) (clean : IsCleanIri iri) :
    Legal { ns with base := some iri } :=
  ⟨h.nodup, h.label, h.absolute, h.clean, fun _ same => Option.some.inj same ▸ ⟨absolute, clean⟩⟩

theorem Legal.absolute_resolve? {ns : Namespaces} (h : ns.Legal) {reference iri : Text}
    (found : ns.resolve? reference = some iri) : Iri.hasScheme iri = true := by
  unfold resolve? at found
  split at found
  · next absolute => exact Option.some.inj found ▸ absolute
  · obtain ⟨base, hbase, same⟩ := Option.map_eq_some_iff.mp found
    exact same ▸ Iri.hasScheme_resolve reference (h.base base hbase).1

theorem Legal.clean_resolve? {ns : Namespaces} (h : ns.Legal) {reference iri : Text}
    (clean : IsCleanIri reference) (found : ns.resolve? reference = some iri) :
    IsCleanIri iri := by
  unfold resolve? at found
  split at found
  · exact Option.some.inj found ▸ clean
  · obtain ⟨base, hbase, same⟩ := Option.map_eq_some_iff.mp found
    exact same ▸ clean_resolve (h.base base hbase).2 clean

theorem Legal.absolute_expand? {ns : Namespaces} (h : ns.Legal) {label localName iri : Text}
    (found : ns.expand? label localName = some iri) : Iri.hasScheme iri = true := by
  obtain ⟨namespaceIri, hfind, rfl⟩ := Option.map_eq_some_iff.mp found
  obtain ⟨entry, hentry, rfl⟩ := Option.map_eq_some_iff.mp hfind
  exact Iri.hasScheme_append _ (h.absolute entry (List.mem_of_find?_eq_some hentry))

end Namespaces

end SparqlMetrics
