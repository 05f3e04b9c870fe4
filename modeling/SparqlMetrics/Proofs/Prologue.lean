import SparqlMetrics.Proofs.Declarations
import SparqlMetrics.Proofs.Grammar.Yields

/-!
# Prologues

What one declaration reads, and what a prologue reads: declarations up to the first token that opens
none. A text that is read is a prologue and the query behind it. Main statements:
`Grammar.declaration?_eq_ok`, `Grammar.prologue_eq_ok`, `QueryUnit.exists_prologue_of_parse`.
-/
namespace SparqlMetrics.Grammar

open SparqlMetrics.Parser TwoRuns

/-- What one declaration reads under the ones known before it. -/
inductive ReadsDeclaration (ns : Namespaces) (c : Cursor) : Option Namespaces → Cursor → Prop
  | base {reference iri : Text} : c.token.lexeme.keyword? = some .BASE →
      c.advance.token.lexeme = .iri reference → ns.resolve? reference = some iri →
      ReadsDeclaration ns c (some { ns with base := some iri }) c.advance.advance
  | «namespace» {label reference iri : Text} : c.token.lexeme.keyword? = some .PREFIX →
      declaredLabel? c.advance.token.lexeme = some label →
      c.advance.advance.token.lexeme = .iri reference → ns.resolve? reference = some iri →
      ReadsDeclaration ns c (some (ns.declare label iri)) c.advance.advance.advance
  | nothing : c.token.lexeme.keyword? ≠ some .BASE → c.token.lexeme.keyword? ≠ some .PREFIX →
      ReadsDeclaration ns c none c

/-- What a prologue reads behind the declarations known before it. -/
inductive ReadsPrologue : Namespaces → Cursor → Namespaces → Cursor → Prop
  | stop {ns : Namespaces} {c : Cursor} : ReadsDeclaration ns c none c → ReadsPrologue ns c ns c
  | step {ns ns' ms : Namespaces} {c c' d : Cursor} : ReadsDeclaration ns c (some ns') c' →
      ReadsPrologue ns' c' ms d → ReadsPrologue ns c ms d

section Declarations
variable {ns ms : Namespaces} {c c' : Cursor}

theorem declaredIri_eq_ok {missing : Malformed} {iri : Text}
    (h : declaredIri ns missing c = .ok (iri, c')) :
    (∃ reference, c.token.lexeme = .iri reference ∧ ns.resolve? reference = some iri) ∧
      c' = c.advance := by
  refine ⟨?_, cursor_of_declaredIri h⟩
  cases same : c.token.lexeme with
  | iri reference =>
      cases resolved : ns.resolve? reference with
      | none =>
          simp [declaredIri, lexeme, resolvedIri, token, same, resolved, bind, StateT.bind,
            Except.bind, throw, throwThe, MonadExceptOf.throw, StateT.lift] at h
      | some absolute =>
          rw [declaredIri_eq missing same resolved] at h
          obtain ⟨rfl, _⟩ := Prod.mk.inj (Except.ok.inj h)
          exact ⟨reference, rfl, resolved⟩
  | _ => simp [declaredIri, lexeme, same, fail, bind, StateT.bind, Except.bind] at h

theorem declaredLabel_eq_ok {label : Text} (h : declaredLabel c = .ok (label, c')) :
    declaredLabel? c.token.lexeme = some label ∧ c' = c.advance := by
  refine ⟨?_, cursor_of_declaredLabel h⟩
  cases declared : declaredLabel? c.token.lexeme with
  | none =>
      simp [declaredLabel, lexeme, declared, bind, StateT.bind, Except.bind, expected, fail] at h
  | some other =>
      rw [declaredLabel_eq declared] at h
      exact congrArg some (Prod.mk.inj (Except.ok.inj h)).1

theorem declaration?_eq_ok {found : Option Namespaces} :
    declaration? ns c = .ok (found, c') ↔ ReadsDeclaration ns c found c' := by
  constructor
  · intro h
    by_cases isBase : c.token.lexeme.keyword? = some .BASE
    · rw [declaration?, bind_eq_of_ok (tryKeyword_eq_true isBase)] at h
      obtain ⟨iri, c₁, read, done⟩ := bind_eq_ok.mp h
      obtain ⟨rfl, rfl⟩ := Prod.mk.inj (Except.ok.inj done)
      obtain ⟨⟨reference, here, resolved⟩, rfl⟩ := declaredIri_eq_ok read
      exact .base isBase here resolved
    rw [declaration?, bind_eq_of_ok (tryKeyword_eq_false isBase)] at h
    by_cases isPrefix : c.token.lexeme.keyword? = some .PREFIX
    · simp only [Bool.false_eq_true, if_false, bind_eq_of_ok (tryKeyword_eq_true isPrefix)] at h
      obtain ⟨label, c₁, labelRead, rest⟩ := bind_eq_ok.mp h
      obtain ⟨iri, c₂, read, done⟩ := bind_eq_ok.mp rest
      obtain ⟨rfl, rfl⟩ := Prod.mk.inj (Except.ok.inj done)
      obtain ⟨declared, rfl⟩ := declaredLabel_eq_ok labelRead
      obtain ⟨⟨reference, here, resolved⟩, rfl⟩ := declaredIri_eq_ok read
      exact .namespace isPrefix declared here resolved
    · simp only [Bool.false_eq_true, if_false, bind_eq_of_ok (tryKeyword_eq_false isPrefix)] at h
      obtain ⟨rfl, rfl⟩ := Prod.mk.inj (Except.ok.inj h)
      exact .nothing isBase isPrefix
  · intro h
    cases h with
    | base isBase here resolved =>
        rw [declaration?, bind_eq_of_ok (tryKeyword_eq_true isBase)]
        exact bind_eq_of_ok (declaredIri_eq _ here resolved)
    | «namespace» isPrefix declared here resolved =>
        have noBase : c.token.lexeme.keyword? ≠ some .BASE := by simp [isPrefix]
        rw [declaration?, bind_eq_of_ok (tryKeyword_eq_false noBase)]
        simp only [Bool.false_eq_true, if_false, bind_eq_of_ok (tryKeyword_eq_true isPrefix), if_true]
        refine (bind_eq_of_ok (declaredLabel_eq declared)).trans ?_
        exact bind_eq_of_ok (declaredIri_eq _ here resolved)
    | nothing noBase noPrefix =>
        rw [declaration?, bind_eq_of_ok (tryKeyword_eq_false noBase)]
        exact bind_eq_of_ok (tryKeyword_eq_false noPrefix)

theorem repeatUpTo_eq_ok (bound : Nat) (enough : c.ahead.length < bound)
    (last : c.last.lexeme.isTerminal = true) :
    repeatUpTo declaration? bound ns c = .ok (ms, c') ↔ ReadsPrologue ns c ms c' := by
  induction bound generalizing ns c with
  | zero => omega
  | succ bound ih =>
      have round : ∀ {ns' : Namespaces} {d : Cursor}, ReadsDeclaration ns c (some ns') d →
          (repeatUpTo declaration? bound ns' d = .ok (ms, c') ↔ ReadsPrologue ns' d ms c') := by
        intro ns' d read
        obtain ⟨shorter, same⟩ := shrinks_declaration? ns c ns' d last (declaration?_eq_ok.mpr read)
        exact ih (by omega) (same ▸ last)
      constructor
      · intro h
        obtain ⟨found, d, first, rest⟩ := bind_eq_ok.mp h
        have read := declaration?_eq_ok.mp first
        cases found with
        | none =>
            obtain ⟨rfl, rfl⟩ := Prod.mk.inj (Except.ok.inj rest)
            cases read with
            | nothing noBase noPrefix => exact .stop (.nothing noBase noPrefix)
        | some ns' => exact .step read ((round read).mp rest)
      · intro h
        cases h with
        | stop read => exact bind_eq_of_ok (declaration?_eq_ok.mpr read)
        | step read rest =>
            exact (bind_eq_of_ok (declaration?_eq_ok.mpr read)).trans ((round read).mpr rest)

theorem repeatFrom_eq_ok (last : c.last.lexeme.isTerminal = true) :
    repeatFrom declaration? ns c = .ok (ms, c') ↔ ReadsPrologue ns c ms c' :=
  repeatUpTo_eq_ok _ (Nat.lt_succ_self _) last

/-- A query behind a prologue is read under the declarations of the prologue. -/
theorem namespaces_of_queryBehind {unit : QueryUnit} (h : queryBehind ns c = .ok (unit, c')) :
    unit.namespaces = ns := by
  obtain ⟨b, _, _, h⟩ := bind_eq_ok.mp h
  obtain ⟨m, _, _, h⟩ := bind_eq_ok.mp h
  obtain ⟨values, _, _, h⟩ := bind_eq_ok.mp h
  obtain ⟨_, _, _, h⟩ := bind_eq_ok.mp h
  obtain ⟨stop, _, _, h⟩ := bind_eq_ok.mp h
  exact congrArg QueryUnit.namespaces (Prod.mk.inj (Except.ok.inj h)).1.symm

end Declarations

end SparqlMetrics.Grammar

namespace SparqlMetrics.Cursor

variable {c d : Cursor} {t : Token} {f : Token → Lexeme}

/-- Whether the lexemes from a cursor on are those that a function gives for the tokens from another
cursor on. -/
structure Maps (f : Token → Lexeme) (c d : Cursor) : Prop where
  ahead : c.ahead.map (·.lexeme) = d.ahead.map f
  last : c.last.lexeme = f d.last
  blankCount : c.blankCount = d.blankCount

theorem Maps.token (h : c.Maps f d) : c.token.lexeme = f d.token := by
  have heads := congrArg (·.headD (f d.last)) h.ahead
  cases cAhead : c.ahead with
  | nil =>
      cases dAhead : d.ahead with
      | nil => simpa [Cursor.token, cAhead, dAhead] using h.last
      | cons u us => simpa [cAhead, dAhead] using h.ahead
  | cons t ts =>
      cases dAhead : d.ahead with
      | nil => simpa [cAhead, dAhead] using h.ahead
      | cons u us => simpa [Cursor.token, cAhead, dAhead] using heads

theorem Maps.advance (h : c.Maps f d) : c.advance.Maps f d.advance := by
  refine ⟨?_, h.last, h.blankCount⟩
  simpa [Cursor.advance, List.map_tail] using congrArg List.tail h.ahead

theorem token_mem_ahead (last : c.last.lexeme.isTerminal = true)
    (full : c.token.lexeme.isTerminal = false) : c.token ∈ c.ahead := by
  cases ahead : c.ahead with
  | nil =>
      rw [Cursor.token, ahead, List.headD_nil, last] at full
      cases full
  | cons t ts => simp [Cursor.token, ahead]

/-- A full token begins before the tokens behind it. -/
theorem start_lt (sorted : c.ahead.Pairwise fun t u => t.start < u.start)
    (last : c.last.lexeme.isTerminal = true) (full : c.token.lexeme.isTerminal = false)
    (behind : t ∈ c.advance.ahead) : c.token.start < t.start := by
  have member := token_mem_ahead last full
  cases ahead : c.ahead with
  | nil =>
      rw [ahead] at member
      cases member
  | cons u us =>
      rw [ahead, List.pairwise_cons] at sorted
      have here : c.token = u := by simp [Cursor.token, ahead]
      rw [Cursor.advance, ahead, List.tail_cons] at behind
      exact here ▸ sorted.1 t behind

end SparqlMetrics.Cursor

namespace SparqlMetrics.Grammar

open SparqlMetrics.Parser

variable {ns ms : Namespaces} {c d d' : Cursor} {f : Token → Lexeme}

theorem suffix_of_readsDeclaration {found : Option Namespaces} (h : ReadsDeclaration ns d found d') :
    d'.ahead <:+ d.ahead ∧ d'.last = d.last := by
  cases h with
  | base => exact ⟨(List.tail_suffix _).trans (List.tail_suffix _), rfl⟩
  | «namespace» =>
      exact ⟨(List.tail_suffix _).trans ((List.tail_suffix _).trans (List.tail_suffix _)), rfl⟩
  | nothing => exact ⟨List.suffix_refl _, rfl⟩

theorem suffix_of_readsPrologue (h : ReadsPrologue ns d ms d') :
    d'.ahead <:+ d.ahead ∧ d'.last = d.last := by
  induction h with
  | stop => exact ⟨List.suffix_refl _, rfl⟩
  | step read _ ih =>
      obtain ⟨suffix, last⟩ := suffix_of_readsDeclaration read
      exact ⟨ih.1.trans suffix, ih.2.trans last⟩

/-- A declaration is read of the lexemes that a function gives when it keeps the ones before the
end of the prologue. -/
theorem ReadsDeclaration.maps {found : Option Namespaces} {e : Cursor}
    (h : ReadsDeclaration ns d found d') (keywords : ∀ t, (f t).keyword? = t.lexeme.keyword?)
    (sorted : d.ahead.Pairwise fun t u => t.start < u.start)
    (last : d.last.lexeme.isTerminal = true) (member : e.token ∈ d'.ahead)
    (same : ∀ t : Token, t.start < e.token.start → f t = t.lexeme) (maps : c.Maps f d) :
    ∃ c', ReadsDeclaration ns c found c' ∧ c'.Maps f d' := by
  -- a full token that is read stands before the end
  have kept : ∀ {c d : Cursor}, c.Maps f d → d.ahead.Pairwise (fun t u => t.start < u.start) →
      d.last.lexeme.isTerminal = true → d.token.lexeme.isTerminal = false →
      e.token ∈ d.advance.ahead → c.token.lexeme = d.token.lexeme :=
    fun maps sorted last full behind =>
      maps.token.trans (same _ (Cursor.start_lt sorted last full behind))
  have sorted₁ : d.advance.ahead.Pairwise fun t u => t.start < u.start :=
    sorted.sublist (List.tail_sublist _)
  have maps₁ := maps.advance
  have maps₂ := maps₁.advance
  cases h with
  | base isBase reference resolved =>
      have inner : e.token ∈ d.advance.ahead := List.mem_of_mem_tail member
      have first := kept maps sorted last (isTerminal_of_keyword? isBase) inner
      have second := kept maps₁ sorted₁ last (by rw [reference]; rfl) member
      exact ⟨_, .base (first ▸ isBase) (second ▸ reference) resolved, maps₂⟩
  | «namespace» isPrefix declared reference resolved =>
      have sorted₂ : d.advance.advance.ahead.Pairwise fun t u => t.start < u.start :=
        sorted₁.sublist (List.tail_sublist _)
      have inner₁ : e.token ∈ d.advance.advance.ahead := List.mem_of_mem_tail member
      have inner : e.token ∈ d.advance.ahead := List.mem_of_mem_tail inner₁
      obtain ⟨label, name, spelled⟩ := prefixedName_of_declaredLabel? declared
      have first := kept maps sorted last (isTerminal_of_keyword? isPrefix) inner
      have second := kept maps₁ sorted₁ last (by rw [spelled]; rfl) inner₁
      have third := kept maps₂ sorted₂ last (by rw [reference]; rfl) member
      exact ⟨_, .namespace (first ▸ isPrefix) (second ▸ declared) (third ▸ reference) resolved,
        maps₂.advance⟩
  | nothing noBase noPrefix =>
      have first : c.token.lexeme.keyword? = d.token.lexeme.keyword? := by
        rw [maps.token, keywords]
      exact ⟨c, .nothing (first ▸ noBase) (first ▸ noPrefix), maps⟩

/-- A prologue is read of the lexemes that a function gives when it keeps the ones before its end. -/
theorem ReadsPrologue.maps (h : ReadsPrologue ns d ms d')
    (keywords : ∀ t, (f t).keyword? = t.lexeme.keyword?)
    (sorted : d.ahead.Pairwise fun t u => t.start < u.start)
    (last : d.last.lexeme.isTerminal = true) (full : d'.token.lexeme.isTerminal = false)
    (same : ∀ t : Token, t.start < d'.token.start → f t = t.lexeme) (maps : c.Maps f d) :
    ∃ c', ReadsPrologue ns c ms c' ∧ c'.Maps f d' := by
  induction h generalizing c with
  | stop read =>
      have member := Cursor.token_mem_ahead last full
      obtain ⟨c', read', maps'⟩ := read.maps keywords sorted last member same maps
      cases read' with
      | nothing noBase noPrefix => exact ⟨c, .stop (.nothing noBase noPrefix), maps'⟩
  | step read rest ih =>
      obtain ⟨suffix, end'⟩ := suffix_of_readsDeclaration read
      obtain ⟨later, ended⟩ := suffix_of_readsPrologue rest
      have member := later.mem (Cursor.token_mem_ahead (by rw [ended, end', last]) full)
      obtain ⟨c₁, read', maps₁⟩ := read.maps keywords sorted last member same maps
      obtain ⟨c', rest', maps'⟩ :=
        ih (sorted.sublist suffix.sublist) (by rw [end', last]) full same maps₁
      exact ⟨c', .step read' rest', maps'⟩

end SparqlMetrics.Grammar

namespace SparqlMetrics.QueryUnit

/-- A text that is read is a prologue and a query behind it. -/
theorem parse_eq_ok {s : Text} {unit : QueryUnit} : parse s = .ok unit ↔
    ∃ c c', Grammar.ReadsPrologue {} (Cursor.ofStream (TokenStream.ofText s)) unit.namespaces c ∧
      Grammar.queryBehind unit.namespaces c = .ok (unit, c') := by
  have last := (Cursor.at_ofStream s).isTerminal
  have read : parse s = .ok unit ↔
      ∃ c', Grammar.queryUnit (Cursor.ofStream (TokenStream.ofText s)) = .ok (unit, c') := by
    unfold parse
    cases Grammar.queryUnit (Cursor.ofStream (TokenStream.ofText s)) with
    | error e => simp
    | ok pair => simp [Prod.ext_iff]
  rw [read]
  constructor
  · rintro ⟨c', h⟩
    obtain ⟨ns, c, first, rest⟩ := Parser.bind_eq_ok.mp h
    obtain rfl := Grammar.namespaces_of_queryBehind rest
    exact ⟨c, c', (Grammar.repeatFrom_eq_ok last).mp first, rest⟩
  · rintro ⟨c, c', first, rest⟩
    exact ⟨c', (TwoRuns.bind_eq_of_ok ((Grammar.repeatFrom_eq_ok last).mpr first)).trans rest⟩

end SparqlMetrics.QueryUnit
