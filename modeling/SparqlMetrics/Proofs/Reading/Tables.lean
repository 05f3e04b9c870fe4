import SparqlMetrics.Proofs.Reading.Triples

/-!
# Reading written tables

A table is read back from the lines behind its keyword: its columns, then a line for each row.
-/
namespace SparqlMetrics

open Lexeme

def InlineData.body (ns : Namespaces) (indent : Nat) (data : InlineData) : Text :=
  [Byte.space, Byte.lparen] ++ (data.columns.flatMap (fun name => [Byte.space, Byte.question] ++ name) ++
    ([Byte.space, Byte.rparen] ++ (Byte.newline :: line indent [Byte.lbrace] ++
      (data.rows.flatMap (fun cells => line (indent + 2) (spacedItems (cells.map (cellText ns)))) ++
        line indent [Byte.rbrace]))))

theorem InlineData.write_eq (ns : Namespaces) (indent : Nat) (data : InlineData) :
    data.write ns indent = Text.spaces indent ++ (utf8 "VALUES" ++ data.body ns indent) := by
  have word : utf8 "VALUES " = utf8 "VALUES" ++ [Byte.space] := by decide
  simp [write, body, line, spacedItems, Text.bracketed, word, List.flatMap_map]

namespace Grammar

open SparqlMetrics.Parser TwoRuns Cursor

variable {ns : Namespaces} {rest : Text}

theorem opens_close (rest : Text) :
    Opens ([Byte.space, Byte.rparen] ++ rest) (.symbol .rparen) rest :=
  (opens_byte (b := Byte.rparen) (s := .rparen) (by decide) rest).space (b := Byte.space) (by decide)

/-- A cell and the space in front of it. -/
theorem opens_cell (hns : ns.Labelled) {cell : Option Term}
    (h : ∀ t, cell = some t → t.node.Legal true ∧ t.node.Clean ∧ t.node.isResource = true)
    (parts : Parts rest) :
    ∃ l behind, Opens (cellText ns cell ++ rest) l behind ∧ l.continuesString = false ∧
      l ≠ .symbol .rparen ∧ l ≠ .symbol .rbrace := by
  cases cell with
  | none => exact ⟨_, _, opens_keyword .UNDEF parts.breaks, rfl, nofun, nofun⟩
  | some t =>
      obtain ⟨legal, clean, _⟩ := h t rfl
      obtain ⟨l, behind, opens, opened⟩ := opens_term hns legal clean parts
      refine ⟨l, behind, opens, continuesString_of_opened opened, ?_, ?_⟩
      · rintro rfl
        rcases symbol_of_opened opened with same | same <;> cases same
      · rintro rfl
        rcases symbol_of_opened opened with same | same <;> cases same

theorem cellText_ne_nil (hns : ns.Labelled) {cell : Option Term}
    (h : ∀ t, cell = some t → t.node.Legal true ∧ t.node.Clean ∧ t.node.isResource = true) :
    cellText ns cell ≠ [] := by
  cases cell with
  | none => exact List.cons_ne_nil _ _
  | some t => exact write_term_ne_nil hns (h t rfl).1

/-- The cells of a row and the bracket that closes it. -/
theorem fares_valuesUpTo (hns : ns.Labelled) {cells : List (Option Term)}
    (h : ∀ cell ∈ cells, ∀ t, cell = some t →
      t.node.Legal true ∧ t.node.Clean ∧ t.node.isResource = true) :
    Fares (valuesUpTo ns .rparen)
      (cells.flatMap (fun cell => Byte.space :: cellText ns cell) ++ [Byte.space, Byte.rparen]) True
      (cells.map (Option.map bare)) rest := by
  have items : ReadsItems Fails
      (do if ← isAt .rparen then pure none else some <$> dataValue ns : Parser (Option (Option Term)))
      EndsTerm (fun cell => Byte.space :: cellText ns cell) (fun _ => True) (Option.map bare) cells := by
    refine ⟨fun cell member t ends => ?_, fun cell member t ends => ?_,
      fun cell _ => List.cons_ne_nil _ _⟩
    · obtain ⟨l, behind, opens, _, noClose, _⟩ := opens_cell hns (h cell member) ends.parts
      refine Reads.space (Reads.isAt (b := false) ?_ ?_) (by decide)
        (cellText_ne_nil hns (h cell member))
      · rw [Text.first_of_opens opens]
        exact beq_eq_false_iff_ne.mpr noClose
      · exact (fares_dataValue hns (h cell member) ends).map
    · obtain ⟨l, behind, opens, noTag, _⟩ := opens_cell hns (h cell member) ends.parts
      refine ⟨stopsAt_cons (by decide), ?_⟩
      rw [List.cons_append, Text.first_space _ (by decide), Text.first_of_opens opens]
      exact noTag
  have first := Text.first_of_opens (opens_close rest)
  have ends : EndsTerm ([Byte.space, Byte.rparen] ++ rest) :=
    ⟨stopsAt_cons (by decide), by rw [first]; rfl⟩
  have stop : (do if ← isAt .rparen then pure none else some <$> dataValue ns :
      Parser (Option (Option Term))) (before ([Byte.space, Byte.rparen] ++ rest)) =
      .ok (none, before ([Byte.space, Byte.rparen] ++ rest)) := by
    have here : isAt .rparen (before ([Byte.space, Byte.rparen] ++ rest)) =
        .ok (true, before ([Byte.space, Byte.rparen] ++ rest)) := by
      show Except.ok (Text.first ([Byte.space, Byte.rparen] ++ rest) == .symbol .rparen, _) = _
      rw [first]
      rfl
    rw [bind_eq_of_ok here]
    rfl
  have cellsRead := (items.many ends (resumes_fails _) stop).congr
    (iff_true_intro fun _ _ => trivial)
  exact Fares.then cellsRead ((fares_skip (opens_close rest)).bind_pure rfl)

theorem spacedItems_cells (ns : Namespaces) (cells : List (Option Term)) :
    spacedItems (cells.map (cellText ns)) = [Byte.lparen] ++
      (cells.flatMap (fun cell => Byte.space :: cellText ns cell) ++ [Byte.space, Byte.rparen]) := by
  simp [spacedItems, Text.bracketed, List.flatMap_map]

/-- The line of a row with a cell for each column. -/
theorem fares_row (hns : ns.Labelled) {cells : List (Option Term)} {width : Nat}
    (h : ∀ cell ∈ cells, ∀ t, cell = some t →
      t.node.Legal true ∧ t.node.Clean ∧ t.node.isResource = true)
    (wide : cells.length = width) (indent : Nat) :
    Fares (row ns width) (line indent (spacedItems (cells.map (cellText ns)))) True
      (some (cells.map (Option.map bare))) rest := by
  rw [spacedItems_cells]
  refine Reads.line ?_ indent (List.cons_ne_nil _ _)
  refine Fares.then (s := [Byte.lparen]) (x := true) ?_ ?_
  · exact fares_tryMark (opens_byte (by decide) _)
  · refine Fares.bind_pure (fares_valuesUpTo hns h) ?_
    rw [if_pos (by rw [List.length_map, wide])]
    rfl

theorem opens_brace (indent : Nat) {b : Byte} {m : Symbol} (h : Symbol.ofByte? b = some m)
    (rest : Text) : Opens (line indent [b] ++ rest) (.symbol m) (Byte.newline :: rest) := by
  rw [line, List.append_assoc, List.append_assoc]
  exact (opens_byte h _).spaces indent

/-- A line that holds one mark. -/
theorem fares_markLine (indent : Nat) {b : Byte} {m : Symbol} (h : Symbol.ofByte? b = some m)
    (e : Expectation) : Fares (mark m e) (line indent [b]) True () rest :=
  Reads.line (fares_mark e (opens_byte h _)) indent (List.cons_ne_nil _ _)

theorem fares_columns {columns : List Text} (h : ∀ name ∈ columns, IsVariableName name) :
    Fares (many column?) (columns.flatMap fun name => [Byte.space, Byte.question] ++ name) True
      columns ([Byte.space, Byte.rparen] ++ rest) := by
  have items : ReadsItems Fails column? Parts (fun name => [Byte.space, Byte.question] ++ name)
      (fun _ => True) id columns := by
    refine ⟨fun name member t parts => ?_, fun _ _ _ _ => stopsAt_cons (by decide),
      fun _ _ => List.cons_ne_nil _ _⟩
    have opens := opens_variable (h name member) parts.stopsAt_isNameByte
    exact Reads.space (Reads.lexeme (Text.first_of_opens opens) ((fares_skip opens).bind_pure rfl))
      (by decide) (List.cons_ne_nil _ _)
  have stop : column? (before ([Byte.space, Byte.rparen] ++ rest)) =
      .ok (none, before ([Byte.space, Byte.rparen] ++ rest)) := by
    have here : lexeme (before ([Byte.space, Byte.rparen] ++ rest)) =
        .ok (.symbol .rparen, before ([Byte.space, Byte.rparen] ++ rest)) := by
      show Except.ok (Text.first ([Byte.space, Byte.rparen] ++ rest), _) = _
      rw [Text.first_of_opens (opens_close rest)]
    rw [column?, bind_eq_of_ok here]
    rfl
  have read := items.many (stopsAt_cons (by decide)) (resumes_fails _) stop
  rw [List.map_id] at read
  exact read.congr (iff_true_intro fun _ _ => trivial)

/-- A table behind its keyword. -/
theorem fares_inlineData (hns : ns.Labelled) {data : InlineData} (h : data.Everywhere printableChecks)
    (indent : Nat) :
    Fares (inlineData ns) (data.body ns indent) True (data.rewrite reread) rest := by
  obtain ⟨⟨wide, names, resources⟩, terms⟩ := h
  have cells : ∀ cells ∈ data.rows, ∀ cell ∈ cells, ∀ t, cell = some t →
      t.node.Legal true ∧ t.node.Clean ∧ t.node.isResource = true := by
    intro cells hcells cell hcell t same
    obtain ⟨legal, clean⟩ := terms cells hcells t (same ▸ hcell)
    exact ⟨legal, clean, resources cells hcells t (same ▸ hcell)⟩
  have rows : ReadsItems Fails (row ns data.columns.length) (fun _ => True)
      (fun cells => line (indent + 2) (spacedItems (cells.map (cellText ns)))) (fun _ => True)
      (List.map (Option.map bare)) data.rows := by
    refine ⟨fun row member t _ => ?_, fun _ _ _ _ => trivial, fun _ _ => by simp [line]⟩
    exact fares_row hns (cells row member) (wide row member) (indent + 2)
  have stop : row ns data.columns.length (before (line indent [Byte.rbrace] ++ rest)) =
      .ok (none, before (line indent [Byte.rbrace] ++ rest)) := by
    refine bind_eq_of_ok (tryMark_before ?_)
    rw [Text.first_of_opens (opens_brace indent (m := .rbrace) (by decide) rest)]
    decide
  have readRows := (rows.many trivial (resumes_fails _) stop).congr
    (iff_true_intro fun _ _ => trivial)
  have openMark := fun s => (opens_byte (b := Byte.lparen) (s := .lparen) (by decide) s).space
    (b := Byte.space) (by decide)
  refine Reads.position (Reads.lexeme (Text.first_of_opens (openMark _)) ?_)
  refine Fares.then (s := [Byte.space, Byte.lparen]) (fares_skip (openMark _)) ?_
  refine Fares.then (fares_columns names) ?_
  refine Fares.then (s := [Byte.space, Byte.rparen]) (fares_mark _ (opens_close _)) ?_
  refine Fares.then (s := Byte.newline :: line indent [Byte.lbrace])
    ((fares_markLine indent (by decide) _).space (by decide) (by simp [line])) ?_
  refine Fares.then readRows ?_
  refine (fares_markLine indent (by decide) _).bind_pure ?_
  rw [bind_eq_of_ok (position_before rest)]
  rfl

end Grammar

end SparqlMetrics
