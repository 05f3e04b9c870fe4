import SparqlMetrics.Proofs.Reading.Groups
import SparqlMetrics.Proofs.Text.Numeral

/-!
# Reading clauses

The clauses around a pattern are read from their lines: what is selected, the pattern itself, the
solution modifiers and the trailing table. A clause that is missing is passed over, because what
follows opens none of its kind. The lines of a nested selection are these clauses in order.
-/
namespace SparqlMetrics

open Lexeme

namespace Query

/-- Whether the conditions of the solution modifiers fit an allowance. -/
def ModifiersFit (n : Nat) (q : Query) : Prop :=
  (∀ c ∈ q.groupBy, c.Fits n) ∧ (∀ e ∈ q.having, e.FitsAlone false n) ∧ ∀ c ∈ q.orderBy, c.Fits n

def modifiers (q : Query) : Grammar.Modifiers :=
  ⟨q.groupBy, q.having, q.orderBy, ⟨q.limit, q.offset⟩⟩

end Query

namespace Grammar

open SparqlMetrics.Parser TwoRuns Cursor

/-- A lexeme that ends a query, or opens one of the clauses that some keywords open. -/
def OpensClause (ks : List Keyword) (l : Lexeme) : Prop :=
  l = .symbol .rbrace ∨ l = .endOfInput ∨ ∃ k ∈ ks, ∃ spelled, l = .keyword k spelled

section Order
variable {ks ks' : List Keyword} {l : Lexeme}

theorem OpensClause.mono (h : OpensClause ks l) (sub : ks ⊆ ks') : OpensClause ks' l := by
  rcases h with rfl | rfl | ⟨k, member, spelled, rfl⟩
  · exact .inl rfl
  · exact .inr (.inl rfl)
  · exact .inr (.inr ⟨k, sub member, spelled, rfl⟩)

theorem OpensClause.closes (h : OpensClause ks l) (sub : ks ⊆ clauseKeywords) :
    closesList l = true := by
  rcases h with rfl | rfl | ⟨k, member, spelled, rfl⟩
  · rfl
  · rfl
  · exact List.contains_iff_mem.mpr (sub member)

theorem OpensClause.keyword_ne (h : OpensClause ks l) {k : Keyword} (other : k ∉ ks) :
    l.keyword? ≠ some k := by
  rcases h with rfl | rfl | ⟨k', member, spelled, rfl⟩
  · nofun
  · nofun
  · rintro ⟨⟩
    exact other member

end Order

section Select
variable {ns : Namespaces} {indent n : Nat} {items : List Projection} {rest : Text}

theorem fares_selectModifier (modifier : SelectModifier)
    (noDistinct : rest.first.keyword? ≠ some .DISTINCT)
    (noReduced : rest.first.keyword? ≠ some .REDUCED) (breaks : Breaks rest) :
    Fares selectModifier modifier.word True modifier rest := by
  have distinct : utf8 " DISTINCT" = Byte.space :: utf8 "DISTINCT" := by decide
  have reduced : utf8 " REDUCED" = Byte.space :: utf8 "REDUCED" := by decide
  cases modifier with
  | none => exact Reads.noKeyword noDistinct (Reads.noKeyword noReduced (reads_nothing rfl))
  | distinct =>
      rw [SelectModifier.word, distinct]
      exact (fares_tryKeyword (opens_wordSpaced .DISTINCT breaks) rfl).bind_pure rfl
  | reduced =>
      have opens : Opens (Byte.space :: utf8 "REDUCED" ++ rest) (.keyword .REDUCED (utf8 "REDUCED"))
          rest := opens_wordSpaced .REDUCED breaks
      rw [SelectModifier.word, reduced]
      refine Reads.noKeyword ?_ ((fares_tryKeyword opens rfl).bind_pure rfl)
      rw [Text.first_of_opens opens]
      nofun

theorem breaks_items {ι : Type} {text : ι → Text} (xs : List ι) (rest : Text) :
    Breaks (xs.flatMap (fun x => Byte.space :: text x) ++ Byte.newline :: rest) := by
  cases xs <;> exact stopsAt_cons (by decide)

theorem breaks_word (modifier : SelectModifier) (breaks : Breaks rest) :
    Breaks (modifier.word ++ rest) := by
  cases modifier with
  | none => exact breaks
  | distinct => exact stopsAt_cons (by decide)
  | reduced => exact stopsAt_cons (by decide)

/-- The selection of everything. -/
theorem fares_selectAll (modifier : SelectModifier) :
    Fares (selectClause (Level.ofAllowance ns n))
      (utf8 "SELECT" ++ (modifier.word ++ [Byte.space, Byte.star])) True (.select modifier true [])
      rest := by
  have star : Opens ([Byte.space, Byte.star] ++ rest) (.symbol .star) rest :=
    (opens_byte (b := Byte.star) (s := .star) (by decide) rest).space (b := Byte.space) (by decide)
  have first := Text.first_of_opens star
  have breaks : Breaks (modifier.word ++ [Byte.space, Byte.star] ++ rest) := by
    cases modifier <;> exact stopsAt_cons (by decide)
  refine Fares.then (fares_skip (opens_keyword .SELECT breaks)) ?_
  refine Fares.then (fares_selectModifier modifier ?_ ?_ (stopsAt_cons (by decide))) ?_
  · rw [first]
    nofun
  · rw [first]
    nofun
  · exact (fares_tryMark star).bind_pure rfl

theorem opens_projections (names : ∀ p ∈ items, IsVariableName p.name) (nonempty : items ≠ [])
    (rest : Text) : Breaks ((Projection.writeList ns items).text ++ Byte.newline :: rest) ∧
      opensProjection ((Projection.writeList ns items).text ++ Byte.newline :: rest).first =
        true := by
  rw [text_projections]
  cases items with
  | nil => exact absurd rfl nonempty
  | cons p items =>
      rw [List.flatMap_cons, List.append_assoc]
      refine ⟨stopsAt_cons (by decide), ?_⟩
      rw [List.cons_append, Text.first_space _ (by decide)]
      refine opens_projection (names p List.mem_cons_self) ?_
      cases items <;> exact stopsAt_cons (by decide)

theorem opensProjection_other {l : Lexeme} (h : opensProjection l = true) :
    l.keyword? = none ∧ l ≠ .symbol .star := by
  cases l with
  | symbol m =>
      cases m with
      | lparen => exact ⟨rfl, nofun⟩
      | _ => cases h
  | keyword k spelled => cases h
  | _ => exact ⟨rfl, nofun⟩

/-- The selection of some items. -/
theorem fares_selectItems (modifier : SelectModifier) (nonempty : items ≠ [])
    (names : ∀ p ∈ items, IsVariableName p.name)
    (values : ∀ p ∈ items, ∀ e, p.value = some e → ReadsExpression ns 0 e)
    (closes : closesList rest.first = true) :
    Fares (selectClause (Level.ofAllowance ns n))
      (utf8 "SELECT" ++ (modifier.word ++ (Projection.writeList ns items).text))
      (∀ p ∈ items, p.Fits n) (.select modifier false (items.map (Projection.rewrite reread)))
      (Byte.newline :: rest) := by
  have ⟨breaks, opens⟩ : Breaks ((Projection.writeList ns items).text ++ Byte.newline :: rest) ∧
      opensProjection ((Projection.writeList ns items).text ++ Byte.newline :: rest).first = true :=
    opens_projections names nonempty rest
  obtain ⟨noKeyword, noStar⟩ := opensProjection_other opens
  have behind : Breaks (modifier.word ++ (Projection.writeList ns items).text ++
      Byte.newline :: rest) := by
    rw [List.append_assoc]
    exact breaks_word modifier breaks
  refine Fares.then (fares_skip (opens_keyword .SELECT behind)) ?_
  refine Fares.then (fares_selectModifier modifier ?_ ?_ breaks) ?_
  · rw [noKeyword]
    nofun
  · rw [noKeyword]
    nofun
  · refine Reads.noMark noStar ((fares_projections names values closes).bind_pure ?_)
    cases items with
    | nil => exact absurd rfl nonempty
    | cons p items => rfl

theorem first_select (modifier : SelectModifier) (everything : Bool) (items : List Projection)
    (rest : Text) : (((Form.select modifier everything items).write ns indent).text ++ rest).first =
      .keyword .SELECT (utf8 "SELECT") := by
  obtain ⟨t, written, breaks⟩ : ∃ t, ((Form.select modifier everything items).write ns indent).text =
      line indent (utf8 "SELECT" ++ (modifier.word ++ t)) ∧ Breaks (t ++ Byte.newline :: rest) := by
    cases everything with
    | true => exact ⟨utf8 " *", by simp [Form.write], stopsAt_cons (by decide)⟩
    | false =>
        refine ⟨(Projection.writeList ns items).text, by simp [Form.write], ?_⟩
        rw [text_projections]
        exact breaks_items _ rest
  rw [written, first_line, List.append_assoc, List.append_assoc]
  exact Text.first_of_opens (opens_keyword .SELECT (breaks_word modifier breaks))

/-- The line of a selection. -/
theorem fares_selectClause {modifier : SelectModifier} {everything : Bool}
    (legal : (Form.select modifier everything items).Legal)
    (values : ∀ p ∈ items, ∀ e, p.value = some e → ReadsExpression ns 0 e)
    (closes : closesList rest.first = true) :
    Fares (selectClause (Level.ofAllowance ns n))
      ((Form.select modifier everything items).write ns indent).text (∀ p ∈ items, p.Fits n)
      ((Form.select modifier everything items).rewrite reread) rest := by
  obtain ⟨all, names⟩ := legal
  cases everything with
  | true =>
      obtain rfl := all.mp rfl
      have star : utf8 " *" = [Byte.space, Byte.star] := by decide
      have written : ((Form.select modifier true []).write ns indent).text =
          line indent (utf8 "SELECT" ++ (modifier.word ++ [Byte.space, Byte.star])) := by
        simp [Form.write, star]
      rw [written]
      refine (Reads.line (fares_selectAll modifier) indent (List.cons_ne_nil _ _)).congr ?_
      exact iff_of_true trivial nofun
  | false =>
      have nonempty : items ≠ [] := fun noItems => by cases all.mpr noItems
      have written : ((Form.select modifier false items).write ns indent).text =
          line indent (utf8 "SELECT" ++ (modifier.word ++ (Projection.writeList ns items).text)) := by
        simp [Form.write]
      rw [written, Form.rewrite, Projection.rewriteAll_eq_map]
      exact (fares_selectItems modifier nonempty names values closes).line indent
        (List.cons_ne_nil _ _)

end Select

section Where
variable {ns : Namespaces} {indent n : Nat} {g : Group} {rest : Text}

def whereText (ns : Namespaces) (indent : Nat) (g : Group) : Text :=
  line indent (utf8 "WHERE") ++ (braces indent (g.writeContent ns (indent + 2))).text

theorem first_whereText (rest : Text) :
    (whereText ns indent g ++ rest).first = .keyword .WHERE (utf8 "WHERE") := by
  rw [whereText, List.append_assoc]
  exact first_keywordLine .WHERE _

theorem fares_whereClause (kind : g.kind = .group) (h : ReadsContent ns (indent + 2) g) :
    Fares (whereClause (Level.ofAllowance ns n)) (whereText ns indent g) (g.Fits n)
      (g.rewrite reread) rest := by
  have plain : g.kind.isUnion = false := by
    rw [kind]
    rfl
  have word : ∀ t, Fares (tryKeyword .WHERE) (line indent (utf8 "WHERE")) True true t := fun t =>
    (fares_tryKeyword (opens_keyword .WHERE (stopsAt_cons (by decide))) rfl).line indent
      (List.cons_ne_nil _ _)
  have group : Fares ((Level.ofAllowance ns n).group (g.kind.rewrite reread))
      (braces indent (g.writeContent ns (indent + 2))).text (g.Fits n) (g.rewrite reread) rest :=
    fares_braces plain h
  rw [kind] at group
  refine Fares.then (word _) (Reads.isAt (b := true) ?_ group)
  rw [first_braces]
  rfl

end Where

section Modifiers
variable {ns : Namespaces} {indent n : Nat} {rest : Text}

theorem text_conditionLine (indent : Nat) (name : String) (absent : Bool) (conditions : Passage) :
    (conditionLine indent name absent conditions).text =
      if absent then [] else line indent (utf8 name ++ conditions.text) := by
  cases absent <;> simp [conditionLine]

/-- A list of items that is read where some are there. -/
theorem fares_nonempty {α β : Type} {e : Expectation} {p : Parser (List α)} {s : Text} {g : Prop}
    {xs : List α} {f : List α → Parser β} {y : β} (h : Fares p s g xs rest) (nonempty : xs ≠ [])
    (hf : f xs (before rest) = .ok (y, before rest)) :
    Fares (p >>= fun xs => if xs.isEmpty then expected e else f xs) s g y rest := by
  refine h.bind_pure ?_
  rw [if_neg (by simpa using nonempty)]
  exact hf

/-- A clause that a keyword and the word BY open. -/
theorem fares_byClause {α : Type} {k : Keyword} {missing e : Expectation} {items : Parser (List α)}
    {s : Text} {g : Prop} {xs : List α} (h : Fares items s g xs (Byte.newline :: rest))
    (breaks : Breaks (s ++ Byte.newline :: rest)) (nonempty : xs ≠ []) :
    Fares (do
        if ← tryKeyword k then
          Parser.keyword .BY missing
          let xs ← items
          if xs.isEmpty then expected e else pure xs
        else pure [])
      (line indent (utf8 k.name ++ (Byte.space :: utf8 "BY" ++ s))) g xs rest := by
  refine Reads.line ?_ indent (List.append_ne_nil_of_right_ne_nil _ (List.cons_ne_nil _ _))
  refine Fares.then (fares_tryKeyword (opens_keyword k (stopsAt_cons (by decide))) rfl) ?_
  refine Fares.then (fares_keyword _ (opens_wordSpaced .BY breaks) rfl) ?_
  exact fares_nonempty h nonempty rfl

def groupLine (ns : Namespaces) (indent : Nat) (conditions : List GroupCondition) : Text :=
  (conditionLine indent "GROUP BY" conditions.isEmpty
    (GroupCondition.writeList ns indent conditions)).text

def havingLine (ns : Namespaces) (indent : Nat) (conditions : List Expression) : Text :=
  (conditionLine indent "HAVING" conditions.isEmpty
    (Expression.writeConstraints ns indent conditions)).text

def orderLine (ns : Namespaces) (indent : Nat) (conditions : List OrderCondition) : Text :=
  (conditionLine indent "ORDER BY" conditions.isEmpty
    (OrderCondition.writeList ns indent conditions)).text

theorem fares_groupClause (hns : ns.Labelled) {conditions : List GroupCondition}
    (h : ∀ c ∈ conditions, ReadsExpression ns indent c.value)
    (legal : ∀ c ∈ conditions, c.value.Everywhere printableChecks)
    (names : ∀ c ∈ conditions, ∀ name, c.name = some name → IsVariableName name)
    (closes : OpensClause [.HAVING, .ORDER, .LIMIT, .OFFSET, .VALUES] rest.first) :
    Fares (groupClause (Level.ofAllowance ns n)) (groupLine ns indent conditions)
      (∀ c ∈ conditions, c.Fits n) (conditions.map (GroupCondition.rewrite reread)) rest := by
  rw [groupLine, text_conditionLine]
  cases conditions with
  | nil =>
      refine (Reads.noKeyword ?_ (reads_nothing rfl)).congr (iff_of_true trivial nofun)
      exact closes.keyword_ne (by decide)
  | cons c conditions =>
      have words : utf8 "GROUP BY" = utf8 "GROUP" ++ Byte.space :: utf8 "BY" := by decide
      have read : Fares _ _ _ _ (Byte.newline :: rest) :=
        fares_groupConditions (n := n) hns h legal names (closes.closes (by decide))
      rw [List.isEmpty_cons, if_neg (by decide), words, List.append_assoc]
      refine fares_byClause read ?_ (by simp)
      rw [text_groupConditions]
      exact breaks_items _ rest

theorem fares_havingClause {conditions : List Expression}
    (h : ∀ e ∈ conditions, ReadsExpression ns indent e)
    (closes : OpensClause [.ORDER, .LIMIT, .OFFSET, .VALUES] rest.first) :
    Fares (havingClause (Level.ofAllowance ns n)) (havingLine ns indent conditions)
      (∀ e ∈ conditions, e.FitsAlone false n) (conditions.map (Expression.rewrite reread)) rest := by
  rw [havingLine, text_conditionLine]
  cases conditions with
  | nil =>
      refine (Reads.noKeyword ?_ (reads_nothing rfl)).congr (iff_of_true trivial nofun)
      exact closes.keyword_ne (by decide)
  | cons e conditions =>
      have read : Fares _ _ _ _ (Byte.newline :: rest) :=
        fares_havingConditions (n := n) h (closes.closes (by decide))
      have breaks : Breaks ((Expression.writeConstraints ns indent (e :: conditions)).text ++
          Byte.newline :: rest) := by
        rw [text_constraints]
        exact breaks_items _ rest
      rw [List.isEmpty_cons, if_neg (by decide)]
      refine Reads.line ?_ indent (List.cons_ne_nil _ _)
      refine Fares.then (fares_tryKeyword (opens_keyword .HAVING breaks) rfl) ?_
      exact fares_nonempty read (by simp) rfl

theorem fares_orderClause (hns : ns.Labelled) {conditions : List OrderCondition}
    (h : ∀ c ∈ conditions, ReadsExpression ns indent c.value)
    (legal : ∀ c ∈ conditions, c.value.Everywhere printableChecks)
    (closes : OpensClause [.LIMIT, .OFFSET, .VALUES] rest.first) :
    Fares (orderClause (Level.ofAllowance ns n)) (orderLine ns indent conditions)
      (∀ c ∈ conditions, c.Fits n) (conditions.map (OrderCondition.rewrite reread)) rest := by
  rw [orderLine, text_conditionLine]
  cases conditions with
  | nil =>
      refine (Reads.noKeyword ?_ (reads_nothing rfl)).congr (iff_of_true trivial nofun)
      exact closes.keyword_ne (by decide)
  | cons c conditions =>
      have words : utf8 "ORDER BY" = utf8 "ORDER" ++ Byte.space :: utf8 "BY" := by decide
      have read : Fares _ _ _ _ (Byte.newline :: rest) :=
        fares_orderConditions (n := n) hns h legal (closes.closes (by decide))
      rw [List.isEmpty_cons, if_neg (by decide), words, List.append_assoc]
      refine fares_byClause read ?_ (by simp)
      rw [text_orderConditions]
      exact breaks_items _ rest

end Modifiers

section Bounds
variable {indent : Nat} {rest : Text}

theorem fares_count {clause : CountClause} {value : Int} (h : IsCount value) (breaks : Breaks rest) :
    Fares (count clause) (Byte.space :: Text.ofInt value) True value rest := by
  obtain ⟨positive, small⟩ := h
  obtain ⟨m, rfl⟩ := Int.eq_ofNat_of_zero_le positive
  have digits : IsNumeral .integer (Text.ofNat m) := .plain (.integer (Text.isDigits_ofNat m))
  have opens := opens_number digits breaks
  have written : Text.ofInt m = Text.ofNat m := rfl
  have nonempty : Text.ofNat m ≠ [] := (Text.isDigits_ofNat m).1
  rw [written]
  refine Reads.space (Reads.lexeme (Text.first_of_opens opens) ?_) (by decide) nonempty
  show Fares (if (Text.digitsValue (Text.ofNat m) : Int) ≤ Text.maxInt64 then _ else _) _ _ _ _
  rw [Text.digitsValue_ofNat, if_pos small]
  exact (fares_skip opens).bind_pure rfl

/-- The line of a count behind its keyword. -/
theorem fares_countOnce {clause : CountClause} (k : Keyword) {value : Int} (h : IsCount value) :
    Fares (countOnce clause none) (line indent (utf8 k.name ++ Byte.space :: Text.ofInt value)) True
      value rest := by
  refine Reads.line ?_ indent (List.append_ne_nil_of_right_ne_nil _ (List.cons_ne_nil _ _))
  exact Fares.then (fares_skip (opens_testWord k _)) (fares_count h (stopsAt_cons (by decide)))

theorem keyword?_countLine (k : Keyword) (value : Int) (rest : Text) :
    (line indent (utf8 k.name ++ Byte.space :: Text.ofInt value) ++ rest).first.keyword? =
      some k := by
  rw [first_line, first_word]
  rfl

theorem fares_limit {bounds : Bounds} (missing : bounds.limit = none) {value : Int}
    (h : IsCount value) :
    Fares (bound? bounds) (line indent (utf8 "LIMIT" ++ Byte.space :: Text.ofInt value)) True
      (some { bounds with limit := some value }) rest := by
  refine Reads.isAtKeyword (b := true) (beq_iff_eq.mpr (keyword?_countLine .LIMIT value rest)) ?_
  rw [missing]
  exact (fares_countOnce .LIMIT h).bind_pure rfl

theorem fares_offset {bounds : Bounds} (missing : bounds.offset = none) {value : Int}
    (h : IsCount value) :
    Fares (bound? bounds) (line indent (utf8 "OFFSET" ++ Byte.space :: Text.ofInt value)) True
      (some { bounds with offset := some value }) rest := by
  have here : Lexeme.keyword? (Text.first (line indent (utf8 "OFFSET" ++ Byte.space ::
      Text.ofInt value) ++ rest)) = some .OFFSET := keyword?_countLine .OFFSET value rest
  refine Reads.isAtKeyword (b := false) ?_ (Reads.isAtKeyword (b := true) (beq_iff_eq.mpr here) ?_)
  · exact beq_eq_false_iff_ne.mpr fun same => by cases here.symm.trans same
  rw [missing]
  exact (fares_countOnce .OFFSET h).bind_pure rfl

theorem bound?_stops (closes : OpensClause [.VALUES] rest.first) (bounds : Bounds) :
    bound? bounds (before rest) = .ok (none, before rest) := by
  have noLimit := beq_eq_false_iff_ne.mpr (closes.keyword_ne (k := .LIMIT) (by decide))
  have noOffset := beq_eq_false_iff_ne.mpr (closes.keyword_ne (k := .OFFSET) (by decide))
  rw [bound?, bind_eq_of_ok (isAtKeyword_before noLimit)]
  exact bind_eq_of_ok (isAtKeyword_before noOffset)

def boundLines (indent : Nat) (limit offset : Option Int) : Text :=
  countLine indent "LIMIT " limit ++ countLine indent "OFFSET " offset

theorem fares_bounds {limit offset : Option Int} (hlimit : ∀ value, limit = some value → IsCount value)
    (hoffset : ∀ value, offset = some value → IsCount value)
    (closes : OpensClause [.VALUES] rest.first) :
    Fares (repeatFrom bound? {}) (boundLines indent limit offset) True ⟨limit, offset⟩ rest := by
  unfold boundLines
  have limitWord : utf8 "LIMIT " = utf8 "LIMIT" ++ [Byte.space] := by decide
  have offsetWord : utf8 "OFFSET " = utf8 "OFFSET" ++ [Byte.space] := by decide
  have ends := extends_fails bound?
  have start : ∀ t, Gathers Fails (repeatFrom bound? {}) bound? [] True {} t := by
    intro t
    have nothing : Gathers Fails (pure {} >>= repeatFrom bound?) bound? [] True {} t :=
      (reads_nothing rfl).gathers ends
    rwa [pure_bind] at nothing
  have first : ∀ t, Gathers Fails (repeatFrom bound? {}) bound? (countLine indent "LIMIT " limit)
      True ⟨limit, none⟩ t := by
    intro t
    cases limit with
    | none => exact start t
    | some value =>
        have read : Fares (bound? {}) (line indent (utf8 "LIMIT" ++ Byte.space :: Text.ofInt value))
            True (some { limit := some value }) t := fares_limit rfl (hlimit value rfl)
        rw [countLine, limitWord, List.append_assoc]
        exact ((start _).extend ends read (line_ne_nil _ _)).congr (and_iff_left trivial)
  cases offset with
  | none =>
      rw [countLine, List.append_nil]
      exact (first rest).stop (bound?_stops closes _)
  | some value =>
      have read : Fares (bound? ⟨limit, none⟩)
          (line indent (utf8 "OFFSET" ++ Byte.space :: Text.ofInt value)) True
          (some ⟨limit, some value⟩) rest := fares_offset rfl (hoffset value rfl)
      have whole := ((first _).extend ends read (line_ne_nil _ _)).stop (bound?_stops closes _)
      rw [countLine, offsetWord, List.append_assoc]
      exact whole.congr (and_iff_left trivial)

end Bounds

section Tail
variable {ns : Namespaces} {indent n : Nat} {ks : List Keyword} {rest : Text}

theorem opensClause_cons (k : Keyword) (h : OpensClause ks rest.first) :
    OpensClause (k :: ks) rest.first := h.mono (List.subset_cons_self _ _)

theorem opensClause_line (k : Keyword) (ks : List Keyword) {t : Text}
    (breaks : Breaks (t ++ Byte.newline :: rest)) :
    OpensClause (k :: ks) (line indent (utf8 k.name ++ t) ++ rest).first := by
  refine .inr (.inr ⟨k, List.mem_cons_self, utf8 k.name, ?_⟩)
  rw [first_line, List.append_assoc]
  exact Text.first_of_opens (opens_keyword k breaks)

theorem opensClause_group (h : OpensClause ks rest.first) (conditions : List GroupCondition) :
    OpensClause (.GROUP :: ks) (groupLine ns indent conditions ++ rest).first := by
  rw [groupLine, text_conditionLine]
  cases conditions with
  | nil => exact opensClause_cons .GROUP h
  | cons c conditions => exact opensClause_line .GROUP ks (stopsAt_cons (by decide))

theorem opensClause_having (h : OpensClause ks rest.first) (conditions : List Expression) :
    OpensClause (.HAVING :: ks) (havingLine ns indent conditions ++ rest).first := by
  rw [havingLine, text_conditionLine]
  cases conditions with
  | nil => exact opensClause_cons .HAVING h
  | cons e conditions =>
      refine opensClause_line .HAVING ks ?_
      rw [text_constraints]
      exact breaks_items _ rest

theorem opensClause_order (h : OpensClause ks rest.first) (conditions : List OrderCondition) :
    OpensClause (.ORDER :: ks) (orderLine ns indent conditions ++ rest).first := by
  rw [orderLine, text_conditionLine]
  cases conditions with
  | nil => exact opensClause_cons .ORDER h
  | cons c conditions => exact opensClause_line .ORDER ks (stopsAt_cons (by decide))

theorem opensClause_count (h : OpensClause ks rest.first) (k : Keyword) {name : String}
    (word : utf8 name = utf8 k.name ++ [Byte.space]) (value : Option Int) :
    OpensClause (k :: ks) (countLine indent name value ++ rest).first := by
  cases value with
  | none => exact opensClause_cons k h
  | some value =>
      rw [countLine, word, List.append_assoc]
      exact opensClause_line k ks (stopsAt_cons (by decide))

theorem opensClause_values (h : OpensClause ks rest.first) (data : Option InlineData) :
    OpensClause (.VALUES :: ks) (writeData ns indent data ++ rest).first := by
  cases data with
  | none => exact opensClause_cons .VALUES h
  | some data =>
      refine .inr (.inr ⟨.VALUES, List.mem_cons_self, utf8 "VALUES", ?_⟩)
      rw [writeData, InlineData.write_eq, List.append_assoc, List.append_assoc, Text.first_spaces]
      exact Text.first_of_opens (opens_keyword .VALUES (stopsAt_cons (by decide)))

/-- The table at the end of a query. -/
theorem fares_trailingValues (hns : ns.Labelled) {data : Option InlineData}
    (h : tableEverywhere printableChecks data) (closes : OpensClause [] rest.first) :
    Fares (trailingValues ns) (writeData ns indent data) True (data.map (InlineData.rewrite reread))
      rest := by
  cases data with
  | none => exact Reads.noKeyword (closes.keyword_ne nofun) (reads_nothing rfl)
  | some data =>
      rw [writeData, InlineData.write_eq]
      refine Reads.spaces (Fares.then (x := true) ?_ (fares_inlineData hns h indent).map) indent
        (List.cons_ne_nil _ _)
      exact fares_tryKeyword (opens_keyword .VALUES (stopsAt_cons (by decide))) rfl

end Tail

section Queries
variable {ns : Namespaces} {indent n : Nat} {q : Query} {rest : Text}

theorem opensClause_bounds {ks : List Keyword} (h : OpensClause ks rest.first)
    (limit offset : Option Int) :
    OpensClause (.LIMIT :: .OFFSET :: ks) (boundLines indent limit offset ++ rest).first := by
  rw [boundLines, List.append_assoc]
  exact opensClause_count (opensClause_count h .OFFSET (by decide) offset) .LIMIT (by decide) limit

def modifierLines (ns : Namespaces) (indent : Nat) (q : Query) : Text :=
  groupLine ns indent q.groupBy ++ (havingLine ns indent q.having ++
    (orderLine ns indent q.orderBy ++ boundLines indent q.limit q.offset))

theorem opensClause_modifiers {ks : List Keyword} (h : OpensClause ks rest.first) (q : Query) :
    OpensClause (.GROUP :: .HAVING :: .ORDER :: .LIMIT :: .OFFSET :: ks)
      (modifierLines ns indent q ++ rest).first := by
  simp only [modifierLines, List.append_assoc]
  exact opensClause_group (opensClause_having (opensClause_order (opensClause_bounds h _ _) _) _) _

/-- How the expressions of a query and its pattern are read. -/
structure ReadsParts (ns : Namespaces) (indent : Nat) (q : Query) : Prop where
  items : ∀ modifier everything items, q.form = .select modifier everything items →
    ∀ p ∈ items, ∀ e, p.value = some e → ReadsExpression ns 0 e
  root : ReadsContent ns (indent + 2) q.root
  groupBy : ∀ c ∈ q.groupBy, ReadsExpression ns indent c.value
  having : ∀ e ∈ q.having, ReadsExpression ns indent e
  orderBy : ∀ c ∈ q.orderBy, ReadsExpression ns indent c.value

theorem fares_modifiers (hns : ns.Labelled) (h : q.Everywhere printableChecks)
    (reads : ReadsParts ns indent q) (closes : OpensClause [.VALUES] rest.first) :
    Fares (modifiers (Level.ofAllowance ns n)) (modifierLines ns indent q) (q.ModifiersFit n)
      (q.rewrite reread).modifiers rest := by
  obtain ⟨⟨⟨_, _, _, _, labels, hlimit, hoffset⟩, _⟩, _, _, legalGroup, _, legalOrder, _⟩ :=
    Query.everywhere_iff.mp h
  have bounds : OpensClause [.LIMIT, .OFFSET, .VALUES]
      (boundLines indent q.limit q.offset ++ rest).first := opensClause_bounds closes _ _
  have order : OpensClause [.ORDER, .LIMIT, .OFFSET, .VALUES]
      (orderLine ns indent q.orderBy ++ boundLines indent q.limit q.offset ++ rest).first := by
    rw [List.append_assoc]
    exact opensClause_order bounds _
  have behind : OpensClause [.HAVING, .ORDER, .LIMIT, .OFFSET, .VALUES]
      (havingLine ns indent q.having ++ (orderLine ns indent q.orderBy ++
        boundLines indent q.limit q.offset) ++ rest).first := by
    rw [List.append_assoc]
    exact opensClause_having order _
  refine Fares.bind (fares_groupClause hns reads.groupBy legalGroup labels behind) ?_
  refine Fares.bind (fares_havingClause reads.having order) ?_
  refine (Fares.bind (fares_orderClause hns reads.orderBy legalOrder bounds)
    ((fares_bounds hlimit hoffset closes).bind_pure ?_)).congr (and_iff_left trivial)
  cases q
  rw [Query.rewrite, Query.modifiers, GroupCondition.rewriteAll_eq_map,
    Expression.rewriteAll_eq_map, OrderCondition.rewriteAll_eq_map]
  rfl

def datasetLines (ns : Namespaces) (indent : Nat) (dataset : List DatasetClause) : Text :=
  dataset.flatMap fun clause => line indent (clause.write ns)

/-- The lines of a query's pattern; a description without a pattern has none. -/
def patternLines (ns : Namespaces) (indent : Nat) (q : Query) : Text :=
  if q.form.isDescribe && q.root.isEmpty then [] else whereText ns indent q.root

theorem text_writeQuery (q : Query) : (q.write ns indent).text =
    (q.form.write ns indent).text ++ (datasetLines ns indent q.dataset ++
      (patternLines ns indent q ++ (modifierLines ns indent q ++ writeData ns indent q.values))) := by
  obtain ⟨form, names, dataset, root, groupBy, having, orderBy, limit, offset, values, span⟩ := q
  rw [Query.write]
  cases absent : form.isDescribe && root.isEmpty <;>
    simp [absent, datasetLines, patternLines, whereText, modifierLines, groupLine, havingLine,
      orderLine, boundLines]

/-- The query that is read from its clauses, if its result variables are those of its parts. -/
theorem assemble_rewrite {inScope : Option InlineData}
    (names : q.resultVariables = q.form.resultVariables q.root inScope) :
    assemble (q.form.rewrite reread) (q.dataset.map (DatasetClause.rewrite reread))
      (q.root.rewrite reread) (q.rewrite reread).modifiers
      (inScope.map (InlineData.rewrite reread)) (q.values.map (InlineData.rewrite reread)) {} =
      q.rewrite reread := by
  rw [assemble, Form.resultVariables_rewrite, ← names]
  cases q
  rw [Query.rewrite]
  rfl

/-- The clauses of a nested selection. -/
theorem fares_subSelect (hns : ns.Labelled) (h : q.Everywhere printableChecks) (sub : q.IsSubSelect)
    (reads : ReadsParts ns indent q) (closes : rest.first = .symbol .rbrace) :
    Fares (subSelect (Level.ofAllowance ns n)) (q.write ns indent).text (q.Fits n)
      (q.rewrite reread) rest := by
  obtain ⟨⟨modifier, everything, items, select⟩, noDataset, names⟩ := sub
  obtain ⟨⟨⟨_, legal, kind, _⟩, _⟩, _, _, _, _, _, table⟩ := Query.everywhere_iff.mp h
  have ends : OpensClause [] rest.first := .inl closes
  have values : OpensClause [.VALUES] (writeData ns indent q.values ++ rest).first :=
    opensClause_values ends q.values
  have first : closesList (whereText ns indent q.root ++ (modifierLines ns indent q ++
      writeData ns indent q.values) ++ rest).first = true := by
    rw [List.append_assoc, first_whereText]
    rfl
  have lines : (q.write ns indent).text =
      ((Form.select modifier everything items).write ns indent).text ++ (whereText ns indent q.root ++
        (modifierLines ns indent q ++ writeData ns indent q.values)) := by
    rw [text_writeQuery, noDataset, select]
    simp [datasetLines, patternLines, select, Form.isDescribe]
  have whole := assemble_rewrite names
  rw [select] at legal whole
  rw [noDataset, List.map_nil] at whole
  have readTable : Fares (do
      let values ← trailingValues (Level.ofAllowance ns n).namespaces
      pure (assemble ((Form.select modifier everything items).rewrite reread) []
        (q.root.rewrite reread) (q.rewrite reread).modifiers values values ⟨0, ← position⟩))
      (writeData ns indent q.values) True (q.rewrite reread) rest := by
    rw [namespaces_ofAllowance, ← whole]
    exact (fares_trailingValues hns table ends).bind_pure (bind_eq_of_ok (position_before rest))
  rw [lines]
  refine Reads.position (Reads.congr
    (g := (∀ p ∈ items, p.Fits n) ∧ q.root.Fits n ∧ q.ModifiersFit n ∧ True) ?_ ?_)
  · refine Fares.bind (fares_selectClause legal (reads.items _ _ _ select) first) ?_
    refine Fares.bind (fares_whereClause kind reads.root) ?_
    exact Fares.bind (fares_modifiers hns h reads values) readTable
  · rw [Query.fits_iff]
    simp [select, Query.ModifiersFit]

theorem readsSubSelect (hns : ns.Labelled) (h : q.Everywhere printableChecks) (sub : q.IsSubSelect)
    (reads : ReadsParts ns indent q) : ReadsSubSelect ns indent q where
  opens rest := by
    obtain ⟨modifier, everything, items, select⟩ := sub.1
    rw [text_writeQuery, select, List.append_assoc]
    exact first_select _ _ _ _
  reads n rest closes := fares_subSelect hns h sub reads closes

end Queries

end Grammar

end SparqlMetrics
