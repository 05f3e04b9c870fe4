import Mathlib.Tactic.Tauto
import SparqlMetrics.Proofs.Grammar.Before
import SparqlMetrics.Proofs.Grammar.TracksQueries

/-!
# Lines of declarations

A line that declares a namespace or the base is read as one declaration, and then the cursor stands
in front of what follows the line. So a prologue behind some lines is the prologue under what they
declare. Main statement: `Grammar.queryUnit_behind_lines`.
-/
namespace SparqlMetrics

/-- A declaration on a line of its own: of a namespace under a label, or of the base. -/
inductive Declaration where
  | namespace (label iri : Text)
  | base (iri : Text)
  deriving DecidableEq, Repr

namespace Declaration

def text : Declaration → Text
  | .namespace label iri => utf8 "PREFIX " ++ label ++ utf8 ": " ++ Text.angled iri ++ utf8 "\n"
  | .base iri => utf8 "BASE " ++ Text.angled iri ++ utf8 "\n"

def lines (ds : List Declaration) : Text := ds.flatMap text

def target : Declaration → Option Text
  | .namespace label _ => some label
  | .base _ => none

def iri : Declaration → Text
  | .namespace _ iri => iri
  | .base iri => iri

end Declaration

/-- Whether a text and a colon behind it are one name that declares a label. -/
def DeclaresLabel (key label : Text) : Prop :=
  ∃ l, Lexeme.read (key ++ [Byte.colon]) = .ok (l, []) ∧ Grammar.declaredLabel? l = some label

/-- A text that names a prefix: with a colon behind it, it is one name that declares a label. -/
def IsPrefixName (key : Text) : Prop := ∃ label, DeclaresLabel key label

/-- A declaration as its line is read: an absolute IRI for the label that its key declares. -/
inductive Declaration.Declares : Declaration → (Namespaces → Namespaces) → Prop
  | namespace {key label iri : Text} : DeclaresLabel key label → Iri.hasScheme iri = true →
      IsCleanIri iri → Declares (.namespace key iri) (·.declare label iri)
  | base {iri : Text} : Iri.hasScheme iri = true → IsCleanIri iri →
      Declares (.base iri) fun ns => { ns with base := some iri }

/-- A lexeme that declares a label is a prefixed name. -/
theorem prefixedName_of_declaredLabel? {l : Lexeme} {label : Text}
    (h : Grammar.declaredLabel? l = some label) : ∃ first name, l = .prefixedName first name := by
  cases l with
  | prefixedName first name => exact ⟨first, name, rfl⟩
  | _ => cases h

open Lexeme

theorem opens_declaredLabel {key label t : Text} (h : DeclaresLabel key label)
    (breaks : Breaks t) :
    ∃ l, Opens (key ++ Byte.colon :: t) l t ∧ Grammar.declaredLabel? l = some label := by
  obtain ⟨l, read, declared⟩ := h
  obtain ⟨first, name, rfl⟩ := prefixedName_of_declaredLabel? declared
  refine ⟨_, ?_, declared⟩
  have opens := opens_prefixedName_append read breaks
  rwa [List.append_assoc, List.singleton_append] at opens

/-- A label as it is spelled declares itself. -/
theorem declaresLabel_self {label : Text} (h : IsPrefixLabel label) : DeclaresLabel label label :=
  ⟨.prefixedName label [], read_prefixedName h rfl, rfl⟩

theorem Namespaces.resolve?_of_hasScheme {iri : Text} (ns : Namespaces)
    (h : Iri.hasScheme iri = true) : ns.resolve? iri = some iri := by
  simp [resolve?, h]

theorem Namespaces.find?_declare_of_ne {label other : Text} (h : label ≠ other) (iri : Text)
    (ns : Namespaces) : (ns.declare label iri).find? other = ns.find? other := by
  have entries : (setEntry label iri ns.entries).find? (fun entry => entry.1 == other) =
      ns.entries.find? fun entry => entry.1 == other := by
    induction ns.entries with
    | nil => simp [setEntry, h]
    | cons entry rest ih =>
        by_cases same : entry.1 = label
        · have distinct : entry.1 ≠ other := same ▸ h
          simp [setEntry, same, h]
        · simp [setEntry, same, List.find?_cons, ih]
  simp [find?, declare, entries]

theorem colon_not_mem {label : Text} (h : IsPrefixLabel label) : Byte.colon ∉ label := by
  rcases h with rfl | h
  · simp
  · intro colon
    have labelByte := h.2.1 Byte.colon colon
    exact absurd labelByte (by decide)

theorem declaresLabel_unique {key label label' : Text} (h : DeclaresLabel key label)
    (h' : DeclaresLabel key label') : label = label' := by
  obtain ⟨l, found, declared⟩ := h
  obtain ⟨l', found', declared'⟩ := h'
  obtain rfl : l = l' := congrArg Prod.fst (Except.ok.inj (found.symm.trans found'))
  exact Option.some.inj (declared.symm.trans declared')

/-- The key that declares a label that stands before a colon is that label. -/
theorem eq_of_declaresLabel {key label : Text} (h : DeclaresLabel key label)
    (isLabel : IsPrefixLabel label) : key = label := by
  obtain ⟨l, found, declared⟩ := h
  obtain ⟨first, name, rfl⟩ := prefixedName_of_declaredLabel? declared
  obtain ⟨tail, cut, tailRead⟩ := split_of_read found
  cases name with
  | nil =>
      obtain rfl : first = label := Option.some.inj declared
      rw [localName_eq_nil tailRead] at cut
      exact List.append_cancel_right cut
  | cons b name =>
      simp only [Grammar.declaredLabel?] at declared
      split at declared
      · obtain rfl := Option.some.inj declared
        exact absurd (by simp) (colon_not_mem isLabel)
      · cases declared

namespace Grammar

open SparqlMetrics.Parser TwoRuns

section Actions
variable {c : Cursor}

theorem bind_congr_left {α β : Type} {p q : Parser α} {c d : Cursor} (f : α → Parser β)
    (h : p c = q d) : (p >>= f) c = (q >>= f) d := by
  show (p c >>= fun r => f r.1 r.2) = (q d >>= fun r => f r.1 r.2)
  rw [h]

theorem tryKeyword_eq_true {k : Keyword} (h : c.token.lexeme.keyword? = some k) :
    tryKeyword k c = .ok (true, c.advance) := by
  simp [tryKeyword, isAtKeyword, skip, h, bind, StateT.bind, Except.bind, pure_apply]

theorem tryKeyword_eq_false {k : Keyword} (h : c.token.lexeme.keyword? ≠ some k) :
    tryKeyword k c = .ok (false, c) := by
  have other : (c.token.lexeme.keyword? == some k) = false := by simpa using h
  simp [tryKeyword, isAtKeyword, other, bind, StateT.bind, Except.bind, pure_apply]

theorem declaredLabel_eq {label : Text} (h : declaredLabel? c.token.lexeme = some label) :
    declaredLabel c = .ok (label, c.advance) := by
  simp [declaredLabel, lexeme, skip, h, bind, StateT.bind, Except.bind, pure_apply]

theorem declaredIri_eq {ns : Namespaces} {reference iri : Text} (missing : Malformed)
    (h : c.token.lexeme = .iri reference) (resolved : ns.resolve? reference = some iri) :
    declaredIri ns missing c = .ok (iri, c.advance) := by
  simp [declaredIri, resolvedIri, lexeme, token, skip, h, resolved, bind, StateT.bind, Except.bind,
    pure_apply]

end Actions

theorem text_namespace (key iri s : Text) :
    Declaration.text (.namespace key iri) ++ s = utf8 Keyword.PREFIX.name ++
      Byte.space :: (key ++ Byte.colon :: Byte.space :: (Text.angled iri ++ Byte.newline :: s)) := by
  have word : utf8 "PREFIX " = utf8 Keyword.PREFIX.name ++ [Byte.space] := by decide
  have colon : utf8 ": " = [Byte.colon, Byte.space] := by decide
  have newline : utf8 "\n" = [Byte.newline] := by decide
  simp [Declaration.text, word, colon, newline]

theorem text_base (iri s : Text) :
    Declaration.text (.base iri) ++ s =
      utf8 Keyword.BASE.name ++ Byte.space :: (Text.angled iri ++ Byte.newline :: s) := by
  have word : utf8 "BASE " = utf8 Keyword.BASE.name ++ [Byte.space] := by decide
  have newline : utf8 "\n" = [Byte.newline] := by decide
  simp [Declaration.text, word, newline]

/-- Where a cursor stands that has passed over a declaration. -/
structure PassedTo (c c' : Cursor) (s : Text) : Prop where
  place : c'.At s
  blankCount : c'.blankCount = c.blankCount

theorem declaration?_of_namespace {key label iri : Text} (declares : DeclaresLabel key label)
    (absolute : Iri.hasScheme iri = true) (clean : IsCleanIri iri) {c : Cursor} {s : Text}
    (place : c.At (Declaration.text (.namespace key iri) ++ s)) (ns : Namespaces) :
    ∃ c', declaration? ns c = .ok (some (ns.declare label iri), c') ∧ PassedTo c c' s := by
  rw [text_namespace] at place
  have opensWord := opens_keyword .PREFIX
    (t := Byte.space :: (key ++ Byte.colon :: Byte.space :: (Text.angled iri ++ Byte.newline :: s)))
    (stopsAt_cons (by decide))
  obtain ⟨l, opensKey, declared⟩ := opens_declaredLabel
    (t := Byte.space :: (Text.angled iri ++ Byte.newline :: s)) declares
    (stopsAt_cons (by decide))
  have opensLabel := opensKey.space (b := Byte.space) (by decide)
  have opensIri := (opens_iri (t := Byte.newline :: s) clean).space (b := Byte.space) (by decide)
  have place₁ := place.advance opensWord
  have place₂ := place₁.advance opensLabel
  have place₃ := place₂.advance opensIri
  have notBase : tryKeyword .BASE c = .ok (false, c) :=
    tryKeyword_eq_false (by simp [place.token opensWord, Lexeme.keyword?])
  have isPrefix : tryKeyword .PREFIX c = .ok (true, c.advance) :=
    tryKeyword_eq_true (by simp [place.token opensWord, Lexeme.keyword?])
  have first : declaredLabel c.advance = .ok (label, c.advance.advance) :=
    declaredLabel_eq (by rw [place₁.token opensLabel, declared])
  have second : declaredIri ns (.iriAfterLabel label) c.advance.advance =
      .ok (iri, c.advance.advance.advance) :=
    declaredIri_eq _ (place₂.token opensIri) (ns.resolve?_of_hasScheme absolute)
  refine ⟨c.advance.advance.advance, ?_, ?_, rfl⟩
  · rw [declaration?, bind_eq_of_ok notBase]
    simp only [Bool.false_eq_true, if_false]
    rw [bind_eq_of_ok isPrefix]
    simp only [if_true]
    rw [bind_eq_of_ok first, bind_eq_of_ok second]
    rfl
  · exact place₃.space (by decide)

theorem declaration?_of_base {iri : Text} (absolute : Iri.hasScheme iri = true)
    (clean : IsCleanIri iri) {c : Cursor} {s : Text}
    (place : c.At (Declaration.text (.base iri) ++ s)) (ns : Namespaces) :
    ∃ c', declaration? ns c = .ok (some { ns with base := some iri }, c') ∧ PassedTo c c' s := by
  rw [text_base] at place
  have opensWord := opens_keyword .BASE
    (t := Byte.space :: (Text.angled iri ++ Byte.newline :: s)) (stopsAt_cons (by decide))
  have opensIri := (opens_iri (t := Byte.newline :: s) clean).space (b := Byte.space) (by decide)
  have place₁ := place.advance opensWord
  have place₂ := place₁.advance opensIri
  have isBase : tryKeyword .BASE c = .ok (true, c.advance) :=
    tryKeyword_eq_true (by simp [place.token opensWord, Lexeme.keyword?])
  have first : declaredIri ns (.expected .iriAfterBase) c.advance = .ok (iri, c.advance.advance) :=
    declaredIri_eq _ (place₁.token opensIri) (ns.resolve?_of_hasScheme absolute)
  refine ⟨c.advance.advance, ?_, ?_, rfl⟩
  · rw [declaration?, bind_eq_of_ok isBase]
    simp only [if_true]
    rw [bind_eq_of_ok first]
    rfl
  · exact place₂.space (by decide)

theorem declaration?_of_declares {d : Declaration} {change : Namespaces → Namespaces}
    (declares : d.Declares change) {c : Cursor} {s : Text} (place : c.At (d.text ++ s))
    (ns : Namespaces) :
    ∃ c', declaration? ns c = .ok (some (change ns), c') ∧ PassedTo c c' s := by
  cases declares with
  | «namespace» label absolute clean => exact declaration?_of_namespace label absolute clean place ns
  | base absolute clean => exact declaration?_of_base absolute clean place ns

theorem length_advance_le (c : Cursor) : c.advance.ahead.length ≤ c.ahead.length := by
  rw [Cursor.advance, List.length_tail]
  omega

/-- To pass over a full token is to come closer to the last one. -/
theorem length_advance_lt {c : Cursor} (last : c.last.lexeme.isTerminal = true)
    (full : c.token.lexeme.isTerminal = false) : c.advance.ahead.length < c.ahead.length := by
  obtain ⟨ahead, last', count⟩ := c
  cases ahead with
  | nil =>
      have same : last'.lexeme.isTerminal = false := full
      rw [show last'.lexeme.isTerminal = true from last] at same
      cases same
  | cons t ts => exact Nat.lt_succ_self _

theorem isTerminal_of_keyword? {l : Lexeme} {k : Keyword} (h : l.keyword? = some k) :
    l.isTerminal = false := by
  cases l with
  | keyword => rfl
  | _ => cases h

theorem tryKeyword_eq_ok {k : Keyword} {c c' : Cursor} {found : Bool}
    (h : tryKeyword k c = .ok (found, c')) :
    (found = true ∧ c.token.lexeme.keyword? = some k ∧ c' = c.advance) ∨
      (found = false ∧ c' = c) := by
  by_cases here : c.token.lexeme.keyword? = some k
  · rw [tryKeyword_eq_true here] at h
    obtain ⟨rfl, rfl⟩ : true = found ∧ c.advance = c' := by simpa using h
    exact .inl ⟨rfl, here, rfl⟩
  · rw [tryKeyword_eq_false here] at h
    obtain ⟨rfl, rfl⟩ : false = found ∧ c = c' := by simpa using h
    exact .inr ⟨rfl, rfl⟩

theorem cursor_of_declaredIri {ns : Namespaces} {missing : Malformed} {c c' : Cursor} {iri : Text}
    (h : declaredIri ns missing c = .ok (iri, c')) : c' = c.advance := by
  cases same : c.token.lexeme with
  | iri reference =>
      cases resolved : ns.resolve? reference with
      | none =>
          simp [declaredIri, lexeme, resolvedIri, token, same, resolved, bind, StateT.bind,
            Except.bind, throw, throwThe, MonadExceptOf.throw, StateT.lift] at h
      | some absolute =>
          rw [declaredIri_eq missing same resolved] at h
          obtain ⟨rfl, rfl⟩ : absolute = iri ∧ c.advance = c' := by simpa using h
          rfl
  | _ => simp [declaredIri, lexeme, same, fail, bind, StateT.bind, Except.bind] at h

theorem cursor_of_declaredLabel {c c' : Cursor} {label : Text}
    (h : declaredLabel c = .ok (label, c')) : c' = c.advance := by
  cases declared : declaredLabel? c.token.lexeme with
  | none =>
      simp [declaredLabel, lexeme, declared, bind, StateT.bind, Except.bind, expected, fail] at h
  | some label' =>
      rw [declaredLabel_eq declared] at h
      obtain ⟨rfl, rfl⟩ : label' = label ∧ c.advance = c' := by simpa using h
      rfl

/-- Whether each change of a loop comes closer to the last token. -/
def Shrinks {σ : Type} (change : σ → Parser (Option σ)) : Prop :=
  ∀ v c w c', c.last.lexeme.isTerminal = true → change v c = .ok (some w, c') →
    c'.ahead.length < c.ahead.length ∧ c'.last = c.last

theorem shrinks_declaration? : Shrinks declaration? := by
  intro ns c ms c' last h
  obtain ⟨isBase, c₁, first, behind⟩ := bind_eq_ok.mp h
  rcases tryKeyword_eq_ok first with ⟨rfl, here, rfl⟩ | ⟨rfl, rfl⟩
  · simp only [if_true] at behind
    have shorter := length_advance_lt last (isTerminal_of_keyword? here)
    obtain ⟨iri, c₂, second, done⟩ := bind_eq_ok.mp behind
    obtain ⟨_, rfl⟩ : some { ns with base := some iri } = some ms ∧ c₂ = c' := by
      simpa [pure_apply] using done
    rw [cursor_of_declaredIri second]
    exact ⟨Nat.lt_of_le_of_lt (length_advance_le _) shorter, rfl⟩
  · simp only [Bool.false_eq_true, if_false] at behind
    obtain ⟨isPrefix, c₂, second, rest⟩ := bind_eq_ok.mp behind
    rcases tryKeyword_eq_ok second with ⟨rfl, here, rfl⟩ | ⟨rfl, rfl⟩
    · simp only [if_true] at rest
      have shorter := length_advance_lt last (isTerminal_of_keyword? here)
      obtain ⟨label, c₃, third, rest⟩ := bind_eq_ok.mp rest
      obtain ⟨iri, c₄, fourth, done⟩ := bind_eq_ok.mp rest
      obtain ⟨_, rfl⟩ : some (ns.declare label iri) = some ms ∧ c₄ = c' := by
        simpa [pure_apply] using done
      rw [cursor_of_declaredIri fourth, cursor_of_declaredLabel third]
      have le₁ := length_advance_le c₁.advance
      have le₂ := length_advance_le c₁.advance.advance
      exact ⟨by omega, rfl⟩
    · simp [pure_apply] at rest

section Loops
variable {σ : Type} {change : σ → Parser (Option σ)}

/-- More rounds than there are tokens are as good as any number above. -/
theorem repeatUpTo_enough (shrinks : Shrinks change) (n m : Nat) (v : σ) (c : Cursor)
    (last : c.last.lexeme.isTerminal = true) (hn : c.ahead.length < n) (hm : c.ahead.length < m) :
    repeatUpTo change n v c = repeatUpTo change m v c := by
  induction n generalizing m v c with
  | zero => omega
  | succ n ih =>
      cases m with
      | zero => omega
      | succ m =>
          rw [repeatUpTo, repeatUpTo]
          cases step : change v c with
          | error e => rw [bind_eq_of_error step, bind_eq_of_error step]
          | ok pair =>
              obtain ⟨found, c'⟩ := pair
              rw [bind_eq_of_ok step, bind_eq_of_ok step]
              cases found with
              | none => rfl
              | some w =>
                  obtain ⟨shorter, same⟩ := shrinks v c w c' last step
                  exact ih m w c' (same ▸ last) (by omega) (by omega)

theorem repeatFrom_eq_of_step (shrinks : Shrinks change) {v w : σ} {c c' : Cursor}
    (last : c.last.lexeme.isTerminal = true) (step : change v c = .ok (some w, c')) :
    repeatFrom change v c = repeatFrom change w c' := by
  obtain ⟨shorter, same⟩ := shrinks v c w c' last step
  show repeatUpTo change (c.ahead.length + 1) v c = repeatUpTo change (c'.ahead.length + 1) w c'
  rw [repeatUpTo, bind_eq_of_ok step]
  exact repeatUpTo_enough shrinks _ _ w c' (same ▸ last) shorter (Nat.lt_succ_self _)

end Loops

end Grammar

/-- What lines of declarations make of the declarations known before them. -/
inductive Declaration.Run : List Declaration → Namespaces → Namespaces → Prop
  | nil {ns : Namespaces} : Run [] ns ns
  | cons {d : Declaration} {ds : List Declaration} {change : Namespaces → Namespaces}
      {ns ms : Namespaces} : d.Declares change → Run ds (change ns) ms → Run (d :: ds) ns ms

namespace Declaration

variable {ds : List Declaration} {ns ms : Namespaces}

theorem exists_run (h : ∀ d ∈ ds, ∃ change, d.Declares change) (ns : Namespaces) :
    ∃ ms, Run ds ns ms := by
  induction ds generalizing ns with
  | nil => exact ⟨ns, .nil⟩
  | cons d ds ih =>
      obtain ⟨change, declares⟩ := h d List.mem_cons_self
      obtain ⟨ms, run⟩ := ih (fun d member => h d (List.mem_cons_of_mem _ member)) (change ns)
      exact ⟨ms, .cons declares run⟩

theorem isSome_find?_declare {label other iri : Text} :
    ((ns.declare label iri).find? other).isSome = true ↔
      label = other ∨ (ns.find? other).isSome = true := by
  by_cases same : label = other
  · subst same
    simp [Namespaces.find?_declare_self]
  · simp [Namespaces.find?_declare_of_ne same, same]

/-- The labels known behind some lines are those known before and the keys that are declared. -/
theorem Run.isSome_find? (run : Run ds ns ms) {label : Text} (isLabel : IsPrefixLabel label) :
    (ms.find? label).isSome = true ↔
      (ns.find? label).isSome = true ∨ some label ∈ ds.map target := by
  induction run with
  | nil => simp
  | @cons d ds change ns ms declares run ih =>
      rw [ih, List.map_cons, List.mem_cons]
      cases declares with
      | @«namespace» key declared iri declares _ _ =>
          have same : declared = label ↔ some label = some key := by
            constructor
            · rintro rfl
              rw [eq_of_declaresLabel declares isLabel]
            · intro same
              obtain rfl := Option.some.inj same
              exact declaresLabel_unique declares (declaresLabel_self isLabel)
          rw [isSome_find?_declare, same, target]
          tauto
      | base => simp [target, Namespaces.find?]

theorem Run.isSome_base (run : Run ds ns ms) :
    ms.base.isSome = true ↔ ns.base.isSome = true ∨ none ∈ ds.map target := by
  induction run with
  | nil => simp
  | @cons d ds change ns ms declares run ih =>
      rw [ih, List.map_cons, List.mem_cons]
      cases declares with
      | «namespace» => simp [target, Namespaces.declare]
      | base => simp [target]

end Declaration

namespace Grammar

open SparqlMetrics.Parser TwoRuns

theorem repeatFrom_of_run {ds : List Declaration} {ns ms : Namespaces}
    (run : Declaration.Run ds ns ms) {s : Text} {c : Cursor}
    (place : c.At (Declaration.lines ds ++ s)) :
    ∃ c', repeatFrom declaration? ns c = repeatFrom declaration? ms c' ∧ c'.At s ∧
      c'.blankCount = c.blankCount := by
  induction run generalizing c with
  | nil => exact ⟨c, rfl, place, rfl⟩
  | @cons d ds change ns ms declares run ih =>
      have split : Declaration.lines (d :: ds) ++ s = d.text ++ (Declaration.lines ds ++ s) := by
        simp [Declaration.lines]
      rw [split] at place
      obtain ⟨c₁, step, passed⟩ := declaration?_of_declares declares place ns
      obtain ⟨c', rest, place', count⟩ := ih passed.place
      refine ⟨c', ?_, place', count.trans passed.blankCount⟩
      rw [repeatFrom_eq_of_step shrinks_declaration? place.isTerminal step, rest]

/-- A text behind lines of declarations is read as its own prologue under what they declare. -/
theorem queryUnit_behind_lines {ds : List Declaration} {ns : Namespaces}
    (run : Declaration.Run ds {} ns) (s : Text) :
    ∃ c, queryUnit (.ofStream (TokenStream.ofText (Declaration.lines ds ++ s))) =
      (repeatFrom declaration? ns >>= queryBehind) c ∧ c.At s ∧ c.blankCount = 0 := by
  obtain ⟨c, same, place, count⟩ := repeatFrom_of_run run (Cursor.at_ofStream _)
  refine ⟨c, ?_, place, count⟩
  rw [queryUnit_eq]
  exact bind_congr_left queryBehind same

end Grammar

end SparqlMetrics
