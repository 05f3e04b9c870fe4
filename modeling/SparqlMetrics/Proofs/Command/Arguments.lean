import SparqlMetrics.Command.Options

/-!
# Arguments as items

A list of arguments is taken item by item: a flag with the value that belongs to it. What the
arguments do to known options is what their items do, one after the other, so a property that each
item keeps is kept by all of them. Main statements: `Options.take_of_spells`,
`Options.exists_spells`, `Options.take_induction`.
-/
namespace SparqlMetrics.Options

/-- A flag with what belongs to it. -/
inductive Item where
  /-- The lint flag, with the query behind it if there is one. -/
  | lint (query : Option Text)
  | switch (s : Switch)
  | setting (s : Setting) (value : Text)
  deriving DecidableEq, Repr

/-- What an item makes of options. -/
def Item.apply (o : Options) : Item → Except OptionError Options
  | .lint none => .ok { o with lint := true }
  | .lint (some query) => .ok { o with lint := true, query := query }
  | .switch s => .ok (s.set o)
  | .setting s value => s.set o value

/-- What items make of options, the first one first. -/
def applyAll (o : Options) (items : List Item) : Except OptionError Options :=
  items.foldlM Item.apply o

/-- Which items a list of arguments spells. An argument behind the lint flag belongs to it when it
is a bare query; behind a setting the next argument always does. -/
inductive Spells : List Item → List Text → Prop
  | nil : Spells [] []
  | switch {items : List Item} {rest : List Text} (s : Switch) : Spells items rest →
      Spells (.switch s :: items) (utf8 s.flag :: rest)
  | setting {items : List Item} {rest : List Text} (s : Setting) (value : Text) :
      Spells items rest → Spells (.setting s value :: items) (utf8 s.flag :: value :: rest)
  | query {items : List Item} {rest : List Text} {query : Text} : isBareQuery query = true →
      Spells items rest → Spells (.lint (some query) :: items) (utf8 "--lint" :: query :: rest)
  | lint {items : List Item} {rest : List Text} :
      (∀ next, rest.head? = some next → isBareQuery next = false) → Spells items rest →
      Spells (.lint none :: items) (utf8 "--lint" :: rest)

variable {o changed : Options} {items : List Item} {arguments : List Text}

theorem Flag.ofText?_spelling (f : Flag) : Flag.ofText? (utf8 f.spelling) = some f := by
  cases f with
  | lint => decide
  | switch s => cases s <;> decide
  | setting s => cases s <;> decide

theorem Flag.eq_of_ofText? {argument : Text} {f : Flag} (h : Flag.ofText? argument = some f) :
    argument = utf8 f.spelling := by
  have found := List.find?_some h
  exact (eq_of_beq found).symm

theorem ofText?_switch (s : Switch) : Flag.ofText? (utf8 s.flag) = some (.switch s) :=
  Flag.ofText?_spelling (.switch s)

theorem ofText?_setting (s : Setting) : Flag.ofText? (utf8 s.flag) = some (.setting s) :=
  Flag.ofText?_spelling (.setting s)

theorem ofText?_lint : Flag.ofText? (utf8 "--lint") = some .lint := Flag.ofText?_spelling .lint

/-- Arguments do what their items do. -/
theorem take_of_spells (h : Spells items arguments) (o : Options) :
    o.take arguments = o.applyAll items := by
  induction h generalizing o with
  | nil => rfl
  | switch s _ ih =>
      rw [take.eq_def]
      simp only [ofText?_switch]
      exact ih _
  | setting s value _ ih =>
      rw [take.eq_def, applyAll, List.foldlM_cons]
      simp only [ofText?_setting, Item.apply]
      cases s.set o value with
      | error e => rfl
      | ok changed => exact ih changed
  | query bare _ ih =>
      rw [take.eq_def]
      simp only [ofText?_lint, bare, if_true]
      exact ih _
  | @lint items rest other _ ih =>
      rw [take.eq_def]
      simp only [ofText?_lint]
      cases rest with
      | nil => exact ih _
      | cons next rest =>
          simp only [other next rfl, Bool.false_eq_true, if_false]
          exact ih _

/-- Arguments that are taken spell items. -/
theorem exists_spells (h : o.take arguments = .ok changed) : ∃ items, Spells items arguments := by
  fun_induction take o arguments with
  | case1 => exact ⟨[], .nil⟩
  | case2 => cases h
  | case3 o argument rest s flag ih =>
      obtain ⟨items, spelled⟩ := ih h
      obtain rfl := Flag.eq_of_ofText? flag
      exact ⟨_, .switch s spelled⟩
  | case4 o argument flag =>
      obtain rfl := Flag.eq_of_ofText? flag
      exact ⟨_, .lint nofun .nil⟩
  | case5 o argument flag query rest bare ih =>
      obtain ⟨items, spelled⟩ := ih h
      obtain rfl := Flag.eq_of_ofText? flag
      exact ⟨_, .query bare spelled⟩
  | case6 o argument flag next rest other ih =>
      obtain ⟨items, spelled⟩ := ih h
      obtain rfl := Flag.eq_of_ofText? flag
      refine ⟨_, .lint (fun first same => ?_) spelled⟩
      rw [← Option.some.inj same]
      exact Bool.eq_false_iff.mpr other
  | case7 => cases h
  | case8 o argument s flag value rest changed _ ih =>
      obtain ⟨items, spelled⟩ := ih h
      obtain rfl := Flag.eq_of_ofText? flag
      exact ⟨_, .setting s value spelled⟩
  | case9 => cases h

/-- What each item keeps, arguments keep. -/
theorem take_induction {P : Options → Prop}
    (step : ∀ (o : Options) (item : Item) (changed : Options), P o → item.apply o = .ok changed →
      P changed) (start : P o)
    (h : o.take arguments = .ok changed) : P changed := by
  obtain ⟨items, spelled⟩ := exists_spells h
  rw [take_of_spells spelled] at h
  clear spelled
  induction items generalizing o with
  | nil =>
      obtain rfl := Except.ok.inj h
      exact start
  | cons item more ih =>
      rw [applyAll, List.foldlM_cons] at h
      cases first : item.apply o with
      | error e =>
          rw [first] at h
          cases h
      | ok next =>
          rw [first] at h
          exact ih (step o item next start first) h

end SparqlMetrics.Options
