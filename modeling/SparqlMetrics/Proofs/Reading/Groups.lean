import SparqlMetrics.Proofs.Reading.Conditions

/-!
# Reading groups

A written group holds its elements, its table and its children, each on lines of its own, or a nested
selection alone. Each member is read into the draft of the group. A child is followed by no UNION,
unless it is an alternative itself, so no two of them are joined.
-/
namespace SparqlMetrics

open Lexeme

inductive Member where
  | element (e : Element)
  | table (data : InlineData)
  | child (g : Group)

def Group.members (g : Group) : List Member :=
  g.elements.map .element ++ (g.data.toList.map .table ++ g.children.map .child)

def Group.write (ns : Namespaces) (indent : Nat) (g : Group) : Passage :=
  if g.kind.isUnion then g.writeAlternatives ns indent
  else g.kind.headingLine ns indent ++ braces indent (g.writeContent ns (indent + 2))

namespace Member

def text (ns : Namespaces) (indent : Nat) : Member → Text
  | .element e => (e.write ns indent).text
  | .table data => data.write ns indent
  | .child g => (g.write ns indent).text

/-- Whether a member fits an allowance. -/
def Fits (n : Nat) : Member → Prop
  | .element e => e.Fits n
  | .table _ => True
  | .child g => g.Fits n

/-- Adds what is read for a member to a draft. -/
def addTo (d : Grammar.Draft) : Member → Grammar.Draft
  | .element e => d.addElements [e.rewrite reread]
  | .table data => d.addData (data.rewrite reread)
  | .child g => d.addChild (g.rewrite reread)

end Member

namespace Group

theorem text_writeElements {ns : Namespaces} {indent : Nat} {elements : List Element}
    (h : ∀ e ∈ elements, e.isSubquery = false) (alone : Bool) :
    (Element.writeList ns indent alone elements).text =
      elements.flatMap fun e => (e.write ns indent).text := by
  induction elements generalizing alone with
  | nil => rw [Element.writeList]; rfl
  | cons e rest ih =>
      have plain := h e List.mem_cons_self
      have tail := ih (fun e' member => h e' (List.mem_cons_of_mem _ member)) false
      cases e with
      | subquery query span => cases plain
      | _ => simp [Element.writeList, tail]

theorem text_writeChildren (ns : Namespaces) (indent : Nat) (children : List Group) :
    (writeChildren ns indent children).text =
      children.flatMap fun g => (g.write ns indent).text := by
  induction children with
  | nil => rw [writeChildren]; rfl
  | cons g rest ih => rw [writeChildren, Passage.text_append, ih, List.flatMap_cons]; rfl

theorem text_writeData (ns : Namespaces) (indent : Nat) (data : Option InlineData) :
    writeData ns indent data = data.toList.flatMap fun d => d.write ns indent := by
  cases data <;> simp [writeData]

/-- What a group without a sub-query holds, in writing. -/
theorem text_writeContent {ns : Namespaces} {indent : Nat} {g : Group}
    (h : ∀ e ∈ g.elements, e.isSubquery = false) :
    (g.writeContent ns indent).text = g.members.flatMap (Member.text ns indent) := by
  obtain ⟨kind, elements, children, data, span⟩ := g
  rw [writeContent, Passage.text_append, Passage.text_append, text_writeElements h,
    text_writeChildren, Passage.text_part, text_writeData]
  simp [members, List.flatMap_append, List.flatMap_map, Member.text]

theorem fits_members {n : Nat} {g : Group} :
    (∀ m ∈ g.members, m.Fits n) ↔ g.ContentFits n := by
  cases found : g.data <;> simp [members, found, ContentFits, or_imp, forall_and, Member.Fits]

theorem foldl_addTo_elements (elements : List Element) (d : Grammar.Draft) :
    (elements.map Member.element).foldl Member.addTo d =
      { d with elements := d.elements ++ elements.map (Element.rewrite reread) } := by
  induction elements generalizing d with
  | nil => simp
  | cons e rest ih =>
      rw [List.map_cons, List.foldl_cons, ih]
      simp [Member.addTo, Grammar.Draft.addElements]

theorem foldl_addTo_children (children : List Group) (d : Grammar.Draft) :
    (children.map Member.child).foldl Member.addTo d =
      { d with children := d.children ++ children.map (Group.rewrite reread) } := by
  induction children generalizing d with
  | nil => simp
  | cons g rest ih =>
      rw [List.map_cons, List.foldl_cons, ih]
      simp [Member.addTo, Grammar.Draft.addChild]

/-- The members of a group make up its draft. -/
theorem foldl_addTo (g : Group) :
    g.members.foldl Member.addTo {} = (g.rewrite reread).draft := by
  obtain ⟨kind, elements, children, data, span⟩ := g
  rw [members, List.foldl_append, List.foldl_append, foldl_addTo_elements, foldl_addTo_children]
  cases data <;>
    simp [draft, rewrite, Element.rewriteAll_eq_map, Group.rewriteAll_eq_map, Member.addTo,
      Grammar.Draft.addData]

end Group

namespace Grammar

open SparqlMetrics.Parser TwoRuns Cursor

/-- A text in front of which a plain group ends, and which is no nested selection. -/
structure FollowsMember (s : Text) : Prop where
  noUnion : s.first.keyword? ≠ some .UNION
  noSelect : s.first.keyword? ≠ some .SELECT

/-- How a member is read into a draft. -/
structure ReadsMember (ns : Namespaces) (indent : Nat) (m : Member) : Prop where
  reads : ∀ n d rest, FollowsMember rest → Fares (member? (Level.ofAllowance ns n) d)
    (m.text ns indent) (m.Fits n) (some (m.addTo d)) rest
  follows : ∀ rest, FollowsMember (m.text ns indent ++ rest)
  nonempty : m.text ns indent ≠ []

section Lines
variable {ns : Namespaces} {indent : Nat} {rest : Text}

theorem followsMember_of_first {s : Text} {l : Lexeme} (first : s.first = l)
    (other : l.keyword? ≠ some .UNION ∧ l.keyword? ≠ some .SELECT) : FollowsMember s := by
  subst first
  exact ⟨other.1, other.2⟩

theorem line_append (indent : Nat) (s rest : Text) :
    line indent s ++ rest = Text.spaces indent ++ (s ++ Byte.newline :: rest) := by
  simp [line]

theorem first_line (indent : Nat) (s rest : Text) :
    (line indent s ++ rest).first = (s ++ Byte.newline :: rest).first := by
  rw [line_append, Text.first_spaces]

theorem line_ne_nil (indent : Nat) (s : Text) : line indent s ≠ [] := by simp [line]

theorem first_word (k : Keyword) (t rest : Text) :
    (utf8 k.name ++ Byte.space :: t ++ rest).first = .keyword k (utf8 k.name) := by
  rw [List.append_assoc]
  exact Text.first_of_opens (opens_testWord k _)

/-- A member that is read from a line behind a word. -/
theorem readsMember_wordLine {m : Member} (k : Keyword) {t : Text}
    (written : m.text ns indent = line indent (utf8 k.name ++ Byte.space :: t))
    (other : k ≠ .UNION ∧ k ≠ .SELECT)
    (reads : ∀ n d rest,
      (utf8 k.name ++ Byte.space :: t ++ rest).first = .keyword k (utf8 k.name) →
      Fares (member? (Level.ofAllowance ns n) d) (utf8 k.name ++ Byte.space :: t) (m.Fits n)
        (some (m.addTo d)) rest) : ReadsMember ns indent m where
  reads n d rest _ := by
    rw [written]
    exact (reads n d _ (first_word k t _)).line indent
      (List.append_ne_nil_of_right_ne_nil _ (List.cons_ne_nil _ _))
  follows rest := by
    rw [written]
    have first : (line indent (utf8 k.name ++ Byte.space :: t) ++ rest).first =
        .keyword k (utf8 k.name) := by
      rw [first_line]
      exact first_word k t _
    exact followsMember_of_first first (by simp [keyword?, other])
  nonempty := written ▸ line_ne_nil _ _

end Lines

section Elements
variable {ns : Namespaces} {indent : Nat} {rest : Text}

/-- Triples among the members of a group. -/
theorem member?_triples {level : Level} {d : Draft} {s : Text}
    (h : startsTriples s.first s.second = true) : member? level d (before s) =
      (do return some (d.addElements (← triplesBlock level)) : Parser (Option Draft)) (before s) := by
  have here : lexeme (before s) = .ok (s.first, before s) := rfl
  rw [member?, bind_eq_of_ok here]
  cases first : s.first with
  | symbol m =>
      rw [first] at h
      cases m <;> first | rfl | cases h
  | keyword k spelled =>
      rw [first] at h
      cases k <;> first | rfl | cases h
  | endOfInput =>
      rw [first] at h
      cases h
  | _ => rfl

theorem followsMember_of_startsTriples {s : Text} (h : startsTriples s.first s.second = true) :
    FollowsMember s := by
  cases first : s.first with
  | keyword k spelled =>
      rw [first] at h
      cases k with
      | SELECT => cases h
      | UNION => cases h
      | _ => exact followsMember_of_first first (by simp [keyword?])
  | _ => exact followsMember_of_first first (by simp [keyword?])

theorem readsMember_sentence (hns : ns.Labelled) {e : Element} (h : e.isSentence = true)
    (printable : e.Everywhere printableChecks) : ReadsMember ns indent (.element e) := by
  have starts : ∀ rest, startsTriples ((e.write ns indent).text ++ rest).first
      ((e.write ns indent).text ++ rest).second = true := by
    intro rest
    rw [text_write_sentence h, line_append]
    have sentence := startsTriples_sentence hns h printable (utf8 " ." ++ Byte.newline :: rest)
    rw [← List.append_assoc] at sentence
    rwa [Text.first, Text.second, before_spaces]
  refine ⟨fun n d rest _ => ?_, fun rest => followsMember_of_startsTriples (starts rest), ?_⟩
  · exact Reads.same (member?_triples (starts rest))
      ((fares_triplesBlock hns h printable n indent).bind_pure rfl)
  · show (e.write ns indent).text ≠ []
    rw [text_write_sentence h]
    exact line_ne_nil _ _

theorem readsMember_filter {condition : Expression} {span : Span}
    (h : ReadsExpression ns indent condition) :
    ReadsMember ns indent (.element (.filter condition span)) := by
  have written : Member.text ns indent (.element (.filter condition span)) =
      line indent (utf8 "FILTER" ++ Byte.space :: constraintText ns indent condition) := by
    have word : utf8 "FILTER " = utf8 "FILTER" ++ [Byte.space] := by decide
    simp [Member.text, Element.write, word, constraintText]
  refine readsMember_wordLine .FILTER written (by decide) fun n d rest first => ?_
  refine (Reads.lexeme first ?_).congr Element.fits_filter.symm
  have read : Fares (filter (Level.ofAllowance ns n))
      (utf8 "FILTER" ++ Byte.space :: constraintText ns indent condition)
      (condition.FitsAlone false n) (.filter (condition.rewrite reread) {}) rest := by
    refine Reads.position (Fares.then (fares_skip (opens_testWord .FILTER _)) ?_)
    exact Fares.bind_pure ((fares_constraint h).space (b := Byte.space) (by decide)
      (constraintText_ne_nil h)) (bind_eq_of_ok (position_before rest))
  exact read.bind_pure rfl

/-- The variable behind a bound expression and the bracket that closes both. -/
theorem fares_target {name : Text} (h : IsVariableName name) (value : Expression) (level : Level) :
    Fares (do
        Parser.keyword .AS .asInBind
        let target ← bindTarget level.namespaces
        mark .rparen .closeBind
        pure (Element.bind value target ⟨0, ← position⟩))
      (Byte.space :: utf8 "AS" ++ Byte.space :: (Byte.question :: name ++ [Byte.rparen])) True
      (.bind value ⟨.var name, {}⟩ {}) rest := by
  have opens : Opens (Byte.question :: name ++ Byte.rparen :: rest) (.variableName name)
      (Byte.rparen :: rest) := opens_variable h (stopsAt_cons (by decide))
  have target : Fares (bindTarget level.namespaces) (Byte.question :: name) True
      ⟨.var name, {}⟩ (Byte.rparen :: rest) := by
    refine Reads.lexeme (Text.first_of_opens opens) (Reads.token (Text.first_of_opens opens) ?_)
    exact (fares_skip opens).bind_pure rfl
  have shape : Byte.space :: (Byte.question :: name ++ [Byte.rparen]) =
      (Byte.space :: Byte.question :: name) ++ [Byte.rparen] := rfl
  refine Fares.then (fares_keyword _ (opens_as _) rfl) ?_
  rw [shape]
  refine Fares.then (target.space (by decide) (List.cons_ne_nil _ _)) ?_
  exact (fares_mark _ (opens_rparen rest)).bind_pure (bind_eq_of_ok (position_before rest))

theorem readsMember_bind {value : Expression} {target : Term} {span : Span}
    (h : ReadsExpression ns indent value) (isVar : target.node.isVar = true)
    (legal : target.node.Legal true) :
    ReadsMember ns indent (.element (.bind value target span)) := by
  obtain ⟨node, targetSpan⟩ := target
  cases node with
  | var name =>
      have written : Member.text ns indent (.element (.bind value ⟨.var name, targetSpan⟩ span)) =
          line indent (utf8 "BIND" ++ Byte.space :: ([Byte.lparen] ++ ((value.write ns indent).text ++
            (Byte.space :: utf8 "AS" ++ Byte.space :: (Byte.question :: name ++
              [Byte.rparen]))))) := by
        have word : utf8 "BIND " = utf8 "BIND" ++ [Byte.space] := by decide
        have as : utf8 " AS " = Byte.space :: utf8 "AS" ++ [Byte.space] := by decide
        simp [Member.text, Element.write, word, as, Text.bracketed, Term.write]
      refine readsMember_wordLine .BIND written (by decide) fun n d rest first => ?_
      have opens := fun t => opens_testWord .BIND t
      have read : Fares (binding (Level.ofAllowance ns n))
          (utf8 "BIND" ++ Byte.space :: ([Byte.lparen] ++ ((value.write ns indent).text ++
            (Byte.space :: utf8 "AS" ++ Byte.space :: (Byte.question :: name ++ [Byte.rparen])))))
          (value.Fits n) (.bind (value.rewrite reread) ⟨.var name, {}⟩ {}) rest := by
        refine Reads.position (Fares.then (fares_skip (opens _)) ?_)
        refine Fares.then (s := [Byte.space, Byte.lparen]) (x := ())
          (fares_mark _ (opens_spacedParen _)) ?_
        refine fares_naming h (fares_target legal _ _) ?_
        exact fun _ _ relation => fails_bind (keyword_fails _ relation (by simp) (by simp))
      exact (Reads.lexeme first (read.bind_pure rfl)).congr Element.fits_bind.symm
  | _ => cases isVar

theorem readsMember_table (hns : ns.Labelled) {data : InlineData}
    (h : data.Everywhere printableChecks) : ReadsMember ns indent (.table data) := by
  have opens : ∀ rest, Opens (utf8 "VALUES" ++ (data.body ns indent ++ rest))
      (.keyword .VALUES (utf8 "VALUES")) (data.body ns indent ++ rest) :=
    fun rest => opens_keyword .VALUES (stopsAt_cons (by decide))
  have first : ∀ rest, (utf8 "VALUES" ++ data.body ns indent ++ rest).first =
      .keyword .VALUES (utf8 "VALUES") := by
    intro rest
    rw [List.append_assoc]
    exact Text.first_of_opens (opens rest)
  have written : Member.text ns indent (.table data) =
      Text.spaces indent ++ (utf8 "VALUES" ++ data.body ns indent) := data.write_eq ns indent
  refine ⟨fun n d rest _ => ?_, fun rest => ?_, ?_⟩
  · rw [written]
    refine Reads.spaces (Reads.lexeme (first rest) ?_) indent (List.cons_ne_nil _ _)
    refine Fares.then (fares_skip (opens rest)) ?_
    rw [namespaces_ofAllowance]
    exact (fares_inlineData hns h indent).bind_pure rfl
  · have here := first rest
    rw [written, List.append_assoc]
    rw [← Text.first_spaces indent] at here
    exact followsMember_of_first here ⟨nofun, nofun⟩
  · rw [written]
    exact List.append_ne_nil_of_right_ne_nil _ (List.cons_ne_nil _ _)

end Elements

section Children
variable {ns : Namespaces} {indent n : Nat} {g : Group} {alternatives : List Group} {d : Draft}
  {name : Term} {rest : Text}

theorem braces_text (indent : Nat) (content : Passage) : (braces indent content).text =
    line indent [Byte.lbrace] ++ (content.text ++ line indent [Byte.rbrace]) := by
  simp [braces]

theorem first_braces (indent : Nat) (content : Passage) (rest : Text) :
    ((braces indent content).text ++ rest).first = .symbol .lbrace := by
  rw [braces_text, List.append_assoc]
  exact Text.first_of_opens (opens_brace indent (by decide) _)

theorem braces_ne_nil (indent : Nat) (content : Passage) : (braces indent content).text ≠ [] := by
  rw [braces_text]
  exact List.append_ne_nil_of_left_ne_nil (line_ne_nil _ _) _

/-- The alternatives of a union behind the first one. -/
def moreText (ns : Namespaces) (indent : Nat) (alternatives : List Group) : Text :=
  alternatives.flatMap fun g =>
    line indent (utf8 "UNION") ++ (braces indent (g.writeContent ns (indent + 2))).text

theorem text_writeUnion (h : ∀ g ∈ alternatives, g.kind = .group) :
    (Group.writeUnion ns indent false alternatives).text = moreText ns indent alternatives := by
  induction alternatives with
  | nil => rw [Group.writeUnion]; rfl
  | cons g more ih =>
      have plain : g.kind.isPlain = true := by
        rw [h g List.mem_cons_self]
        rfl
      have tail := ih fun g' member => h g' (List.mem_cons_of_mem _ member)
      simp [Group.writeUnion, plain, tail, moreText]

/-- The alternatives behind the first one. -/
theorem fares_moreAlternatives (plain : ∀ g ∈ alternatives, g.kind = .group)
    (h : ∀ g ∈ alternatives, ReadsContent ns (indent + 2) g)
    (ends : rest.first.keyword? ≠ some .UNION) :
    Fares (moreAlternatives (Level.ofAllowance ns n)) (moreText ns indent alternatives)
      (∀ g ∈ alternatives, g.Fits n) (alternatives.map (Group.rewrite reread)) rest := by
  have items : ReadsItems Fails (do
      if ← tryKeyword .UNION then some <$> (Level.ofAllowance ns n).group .group else pure none)
      (fun _ => True) (fun g => line indent (utf8 "UNION") ++
        (braces indent (g.writeContent ns (indent + 2))).text)
      (fun g => g.Fits n) (Group.rewrite reread) alternatives := by
    refine ⟨fun g member t _ => ?_, fun _ _ _ _ => trivial, fun g _ => ?_⟩
    · have noUnion : g.kind.isUnion = false := by
        rw [plain g member]
        rfl
      have read : Fares ((Level.ofAllowance ns n).group (g.kind.rewrite reread))
          (braces indent (g.writeContent ns (indent + 2))).text (g.Fits n) (g.rewrite reread) t :=
        fares_braces noUnion (h g member)
      rw [plain g member] at read
      refine Fares.then (x := true) ?_ read.map
      refine Reads.line (fares_tryKeyword (l := .keyword .UNION (utf8 "UNION")) ?_ rfl) indent
        (List.cons_ne_nil _ _)
      exact opens_keyword .UNION (stopsAt_cons (by decide))
    · exact List.append_ne_nil_of_left_ne_nil (line_ne_nil _ _) _
  exact items.many trivial (resumes_fails _) (bind_eq_of_ok (tryKeyword_before ends))

/-- A plain group, or a union of some with its alternatives. -/
theorem fares_groupOrUnion (plain : ∀ a ∈ g :: alternatives, a.kind = .group)
    (h : ∀ a ∈ g :: alternatives, ReadsContent ns (indent + 2) a)
    (ends : rest.first.keyword? ≠ some .UNION) :
    Fares (groupOrUnion (Level.ofAllowance ns n))
      ((braces indent (g.writeContent ns (indent + 2))).text ++ moreText ns indent alternatives)
      (∀ a ∈ g :: alternatives, a.Fits n)
      (if alternatives.isEmpty then g.rewrite reread
        else ⟨.union, [], (g :: alternatives).map (Group.rewrite reread), none, {}⟩) rest := by
  have kind := plain g List.mem_cons_self
  have noUnion : g.kind.isUnion = false := by
    rw [kind]
    rfl
  have first : Fares ((Level.ofAllowance ns n).group (g.kind.rewrite reread))
      (braces indent (g.writeContent ns (indent + 2))).text (g.Fits n) (g.rewrite reread)
      (moreText ns indent alternatives ++ rest) := fares_braces noUnion (h g List.mem_cons_self)
  have more : Fares (moreAlternatives (Level.ofAllowance ns n)) (moreText ns indent alternatives)
      (∀ a ∈ alternatives, a.Fits n) (alternatives.map (Group.rewrite reread)) rest :=
    fares_moreAlternatives (fun a member => plain a (List.mem_cons_of_mem _ member))
      (fun a member => h a (List.mem_cons_of_mem _ member)) ends
  rw [kind] at first
  refine (Fares.bind first (more.bind_pure ?_)).congr List.forall_mem_cons.symm
  have start : (g.rewrite reread).span.start = 0 := by
    cases g
    rfl
  cases alternatives with
  | nil => rfl
  | cons a more =>
      show (position >>= fun stop => _) (before rest) = _
      rw [bind_eq_of_ok (position_before rest), start]
      rfl

/-- A group behind the word of its kind. -/
theorem fares_wordGroup (k : Keyword) (plain : g.kind.isUnion = false)
    (h : ReadsContent ns (indent + 2) g) :
    Fares (do
        skip
        return some (d.addChild (← (Level.ofAllowance ns n).group (g.kind.rewrite reread))))
      (line indent (utf8 k.name) ++ (braces indent (g.writeContent ns (indent + 2))).text)
      (g.Fits n) (some (d.addChild (g.rewrite reread))) rest := by
  have word : ∀ t, Fares skip (line indent (utf8 k.name)) True () t := fun t =>
    (fares_skip (opens_keyword k (stopsAt_cons (by decide)))).line indent (by cases k <;> decide)
  exact Fares.then (word _) ((fares_braces plain h).bind_pure rfl)

theorem first_keywordLine (k : Keyword) (t : Text) :
    (line indent (utf8 k.name) ++ t).first = .keyword k (utf8 k.name) := by
  rw [first_line]
  exact Text.first_of_opens (opens_keyword k (stopsAt_cons (by decide)))

/-- The name of a graph or a service behind a space. -/
def nameText (ns : Namespaces) (name : Term) : Text := Byte.space :: name.write ns ++ [Byte.newline]

theorem fares_namedGroup (hns : ns.Labelled) {kind : Term → GroupKind} (legal : name.node.Legal true)
    (clean : name.node.Clean) (named : name.node.isIri = true ∨ name.node.isVar = true)
    (same : g.kind.rewrite reread = kind (bare name)) (plain : g.kind.isUnion = false)
    (h : ReadsContent ns (indent + 2) g) :
    Fares (namedGroup (Level.ofAllowance ns n) kind)
      (nameText ns name ++ (braces indent (g.writeContent ns (indent + 2))).text) (g.Fits n)
      (g.rewrite reread) rest := by
  have ends : ∀ t : Text, t.first = .symbol .lbrace → EndsTerm (Byte.newline :: t) := by
    intro t first
    refine ⟨stopsAt_cons (by decide), ?_⟩
    rw [Text.first_space t (by decide), first]
    rfl
  have read : Fares (varOrIri ns) (nameText ns name) True (bare name)
      ((braces indent (g.writeContent ns (indent + 2))).text ++ rest) := by
    have ends := ends _ (first_braces indent (g.writeContent ns (indent + 2)) rest)
    have found := fares_varOrIri hns legal clean named ends
    exact (found.space (b := Byte.space) (by decide) (write_term_ne_nil hns legal)).trailing
      (by decide) (List.cons_ne_nil _ _)
  have group : Fares ((Level.ofAllowance ns n).group (g.kind.rewrite reread))
      (braces indent (g.writeContent ns (indent + 2))).text (g.Fits n) (g.rewrite reread) rest :=
    fares_braces plain h
  rw [same] at group
  refine Fares.then ?_ group
  rw [namespaces_ofAllowance]
  exact read

theorem first_nameText (hns : ns.Labelled) (legal : name.node.Legal true) (clean : name.node.Clean)
    (named : name.node.isIri = true ∨ name.node.isVar = true) (t : Text) :
    (nameText ns name ++ t).first.keyword? ≠ some .SILENT := by
  obtain ⟨l, behind, opens, opened⟩ := opens_term hns legal clean
    (stopsAt_cons (by decide) : Parts (Byte.newline :: t))
  have first : (nameText ns name ++ t).first = l := by
    rw [nameText, List.cons_append, List.cons_append, Text.first_space _ (by decide),
      List.append_assoc]
    exact Text.first_of_opens opens
  rw [first]
  obtain ⟨node, span⟩ := name
  cases opened with
  | iri spells => cases spells <;> simp [keyword?]
  | truth hk => simp [Node.isIri, Node.isVar] at named
  | _ => simp [keyword?]

theorem text_write_plain (plain : g.kind.isUnion = false) : (g.write ns indent).text =
    g.kind.headingLine ns indent ++ (braces indent (g.writeContent ns (indent + 2))).text := by
  rw [Group.write, if_neg (by simp [plain]), Passage.text_append, Passage.text_part]

/-- A child that is no union and has a heading, in writing. -/
theorem text_write_heading (plain : g.kind.isUnion = false) {heading : Text}
    (same : g.kind.heading ns = heading) (nonempty : heading ≠ []) :
    (g.write ns indent).text =
      line indent heading ++ (braces indent (g.writeContent ns (indent + 2))).text := by
  rw [text_write_plain plain, GroupKind.headingLine, same, if_neg (by simpa using nonempty)]

theorem lexeme_at {c : Cursor} {l : Lexeme} (here : c.token.lexeme = l) : lexeme c = .ok (l, c) := by
  rw [← here]
  rfl

/-- A child that a word opens is read whatever follows it. -/
theorem readsMember_word (k : Keyword) (other : k ≠ .UNION ∧ k ≠ .SELECT) {b : Byte} {t : Text}
    (written : (g.write ns indent).text = Text.spaces indent ++ (utf8 k.name ++ b :: t))
    (stop : b.continuesName = false) {p : Level → Draft → Parser (Option Draft)}
    (step : ∀ level d c, lexeme c = .ok (.keyword k (utf8 k.name), c) →
      member? level d c = p level d c)
    (reads : ∀ n d rest, Fares (p (Level.ofAllowance ns n) d) (g.write ns indent).text (g.Fits n)
      (some (d.addChild (g.rewrite reread))) rest) : ReadsMember ns indent (.child g) := by
  have first : ∀ rest, ((g.write ns indent).text ++ rest).first = .keyword k (utf8 k.name) := by
    intro rest
    rw [written, List.append_assoc, List.append_assoc, Text.first_spaces]
    exact Text.first_of_opens (opens_keyword k (stopsAt_cons stop))
  have nonempty : (g.write ns indent).text ≠ [] := by
    rw [written]
    exact List.append_ne_nil_of_right_ne_nil _
      (List.append_ne_nil_of_right_ne_nil _ (List.cons_ne_nil _ _))
  exact
    { reads := fun n d rest _ => Reads.same (step _ _ _ (lexeme_at (first rest))) (reads n d rest)
      follows := fun rest => followsMember_of_first (first rest) (by simp [keyword?, other])
      nonempty := nonempty }

/-- A group that only a word stands in front of. -/
theorem readsMember_wordGroup (k : Keyword) (other : k ≠ .UNION ∧ k ≠ .SELECT)
    (plain : g.kind.isUnion = false) (heading : g.kind.heading ns = utf8 k.name)
    (step : ∀ (level : Level) d c, lexeme c = .ok (.keyword k (utf8 k.name), c) →
      member? level d c = (do
        skip
        return some (d.addChild (← level.group (g.kind.rewrite reread))) : Parser (Option Draft)) c)
    (h : ReadsContent ns (indent + 2) g) : ReadsMember ns indent (.child g) := by
  have written : (g.write ns indent).text = line indent (utf8 k.name) ++
      (braces indent (g.writeContent ns (indent + 2))).text :=
    text_write_heading plain heading (by cases k <;> decide)
  have shape := written
  rw [line_append] at shape
  refine readsMember_word k other shape (by decide) step fun n d rest => ?_
  rw [written]
  exact fares_wordGroup k plain h

/-- A group behind a word and a name. -/
theorem fares_headedGroup (k : Keyword) (hns : ns.Labelled) {kind : Term → GroupKind}
    (legal : name.node.Legal true) (clean : name.node.Clean)
    (named : name.node.isIri = true ∨ name.node.isVar = true)
    (same : g.kind.rewrite reread = kind (bare name)) (plain : g.kind.isUnion = false)
    (h : ReadsContent ns (indent + 2) g) :
    Fares (do
        skip
        return some (d.addChild (← namedGroup (Level.ofAllowance ns n) kind)))
      (Text.spaces indent ++ (utf8 k.name ++ (nameText ns name ++
        (braces indent (g.writeContent ns (indent + 2))).text)))
      (g.Fits n) (some (d.addChild (g.rewrite reread))) rest := by
  refine Reads.spaces (Fares.then (fares_skip (opens_keyword k (stopsAt_cons (by decide)))) ?_) indent
    (List.append_ne_nil_of_right_ne_nil _ (List.cons_ne_nil _ _))
  exact (fares_namedGroup hns legal clean named same plain h).bind_pure rfl

theorem readsMember_graph (hns : ns.Labelled) (kind : g.kind = .graph (some name))
    (legal : name.node.Legal true) (clean : name.node.Clean)
    (named : name.node.isIri = true ∨ name.node.isVar = true)
    (h : ReadsContent ns (indent + 2) g) : ReadsMember ns indent (.child g) := by
  have plain : g.kind.isUnion = false := by
    rw [kind]
    rfl
  have heading : g.kind.heading ns = utf8 "GRAPH" ++ Byte.space :: name.write ns := by
    have word : utf8 "GRAPH " = utf8 "GRAPH" ++ [Byte.space] := by decide
    simp [kind, GroupKind.heading, word]
  have written : (g.write ns indent).text = Text.spaces indent ++ (utf8 "GRAPH" ++
      (nameText ns name ++ (braces indent (g.writeContent ns (indent + 2))).text)) := by
    rw [text_write_heading plain heading (List.cons_ne_nil _ _), line_append]
    simp [nameText]
  refine readsMember_word .GRAPH (by decide) written (by decide)
    (fun level d c here => bind_eq_of_ok here) fun n d rest => ?_
  rw [written]
  exact fares_headedGroup .GRAPH hns legal clean named (by rw [kind]; rfl) plain h

/-- The word that silences the errors of a service, behind a space, or nothing. -/
def silence (silent : Bool) : Text := if silent then Byte.space :: utf8 "SILENT" else []

theorem fares_serviceGroup (hns : ns.Labelled) {silent : Bool}
    (kind : g.kind = .service (some name) silent) (legal : name.node.Legal true)
    (clean : name.node.Clean) (named : name.node.isIri = true ∨ name.node.isVar = true)
    (h : ReadsContent ns (indent + 2) g) :
    Fares (serviceGroup (Level.ofAllowance ns n))
      (silence silent ++ (nameText ns name ++ (braces indent (g.writeContent ns (indent + 2))).text))
      (g.Fits n) (g.rewrite reread) rest := by
  have plain : g.kind.isUnion = false := by
    rw [kind]
    rfl
  have group : Fares (namedGroup (Level.ofAllowance ns n) fun endpoint => .service (some endpoint) silent)
      (nameText ns name ++ (braces indent (g.writeContent ns (indent + 2))).text) (g.Fits n)
      (g.rewrite reread) rest := fares_namedGroup hns legal clean named (by rw [kind]; rfl) plain h
  cases silent with
  | false =>
      have other := first_nameText hns legal clean named
        ((braces indent (g.writeContent ns (indent + 2))).text ++ rest)
      rw [← List.append_assoc] at other
      exact Reads.noKeyword other group
  | true =>
      exact Fares.then (s := silence true) (x := true)
        (fares_tryKeyword (opens_wordSpaced .SILENT (stopsAt_cons (by decide))) rfl) group

theorem readsMember_service (hns : ns.Labelled) {silent : Bool}
    (kind : g.kind = .service (some name) silent) (legal : name.node.Legal true)
    (clean : name.node.Clean) (named : name.node.isIri = true ∨ name.node.isVar = true)
    (h : ReadsContent ns (indent + 2) g) : ReadsMember ns indent (.child g) := by
  have plain : g.kind.isUnion = false := by
    rw [kind]
    rfl
  have heading : g.kind.heading ns =
      utf8 "SERVICE" ++ (silence silent ++ Byte.space :: name.write ns) := by
    have words : utf8 (if silent then "SERVICE SILENT " else "SERVICE ") =
        utf8 "SERVICE" ++ (silence silent ++ [Byte.space]) := by cases silent <;> decide
    simp [kind, GroupKind.heading, words]
  have shape : (g.write ns indent).text = Text.spaces indent ++ (utf8 "SERVICE" ++
      (silence silent ++ (nameText ns name ++
        (braces indent (g.writeContent ns (indent + 2))).text))) := by
    rw [text_write_heading plain heading (List.cons_ne_nil _ _), line_append]
    simp [nameText]
  have spaced : ∃ more, silence silent ++ (nameText ns name ++
      (braces indent (g.writeContent ns (indent + 2))).text) = Byte.space :: more := by
    cases silent <;> exact ⟨_, rfl⟩
  obtain ⟨more, spaced⟩ := spaced
  have written := shape
  rw [spaced] at written
  refine readsMember_word .SERVICE (by decide) written (by decide)
    (fun level d c here => bind_eq_of_ok here) fun n d rest => ?_
  have parts : ∀ t, Breaks (silence silent ++ (nameText ns name ++
      (braces indent (g.writeContent ns (indent + 2))).text) ++ t) := by
    rw [spaced]
    exact fun t => stopsAt_cons (by decide)
  rw [shape]
  refine Reads.spaces (Fares.then (fares_skip (opens_keyword .SERVICE (parts rest))) ?_) indent
    (List.append_ne_nil_of_right_ne_nil _ (spaced ▸ List.cons_ne_nil _ _))
  exact (fares_serviceGroup hns kind legal clean named h).bind_pure rfl

/-- A group between braces, or a union of such groups. -/
theorem readsMember_braces {first : Group} (plain : ∀ a ∈ first :: alternatives, a.kind = .group)
    (h : ∀ a ∈ first :: alternatives, ReadsContent ns (indent + 2) a)
    (written : (g.write ns indent).text =
      (braces indent (first.writeContent ns (indent + 2))).text ++ moreText ns indent alternatives)
    (fits : ∀ n, g.Fits n ↔ ∀ a ∈ first :: alternatives, a.Fits n)
    (value : g.rewrite reread = if alternatives.isEmpty then first.rewrite reread
        else ⟨.union, [], (first :: alternatives).map (Group.rewrite reread), none, {}⟩) :
    ReadsMember ns indent (.child g) := by
  have first : ∀ rest, ((g.write ns indent).text ++ rest).first = .symbol .lbrace := by
    intro rest
    rw [written, List.append_assoc]
    exact first_braces indent _ _
  refine ⟨fun n d rest follows => ?_, fun rest => followsMember_of_first (first rest) ⟨nofun, nofun⟩,
    ?_⟩
  · refine Reads.lexeme (first rest) ?_
    show Fares _ (g.write ns indent).text (g.Fits n) (some (d.addChild (g.rewrite reread))) rest
    rw [written, fits n, value]
    exact (fares_groupOrUnion plain h follows.noUnion).bind_pure rfl
  · show (g.write ns indent).text ≠ []
    rw [written]
    exact List.append_ne_nil_of_left_ne_nil (braces_ne_nil _ _) _

theorem readsMember_plain (kind : g.kind = .group) (h : ReadsContent ns (indent + 2) g) :
    ReadsMember ns indent (.child g) := by
  have plain : g.kind.isUnion = false := by
    rw [kind]
    rfl
  have written : (g.write ns indent).text =
      (braces indent (g.writeContent ns (indent + 2))).text ++ moreText ns indent [] := by
    rw [text_write_plain plain, GroupKind.headingLine, kind]
    simp [GroupKind.heading, moreText]
  refine readsMember_braces (by simpa using kind) (by simpa using h) written (fun n => by simp) ?_
  rfl

/-- A union with its first alternative apart. -/
theorem text_write_union (first : Group) {span : Span}
    (plain : ∀ a ∈ first :: alternatives, a.kind = .group) :
    (Group.write ns indent ⟨.union, [], first :: alternatives, none, span⟩).text =
      (braces indent (first.writeContent ns (indent + 2))).text ++
        moreText ns indent alternatives := by
  have isPlain : first.kind.isPlain = true := by
    rw [plain first List.mem_cons_self]
    rfl
  have more : (Group.writeUnion ns indent false alternatives).text =
      moreText ns indent alternatives :=
    text_writeUnion fun a member => plain a (List.mem_cons_of_mem first member)
  simp [Group.write, GroupKind.isUnion, Group.writeAlternatives, Group.writeUnion, isPlain, more]

theorem readsMember_union (kind : g.kind = .union) (formed : g.IsWellFormed)
    (plain : ∀ a ∈ g.children, a.kind = .group)
    (h : ∀ a ∈ g.children, ReadsContent ns (indent + 2) a) : ReadsMember ns indent (.child g) := by
  obtain ⟨noElements, noData, enough⟩ := formed kind
  obtain ⟨_, elements, children, data, span⟩ := g
  obtain rfl : _ = GroupKind.union := kind
  obtain rfl : elements = [] := noElements
  obtain rfl : data = none := noData
  cases children with
  | nil => exact absurd enough (by simp)
  | cons first more =>
      cases more with
      | nil => exact absurd enough (by simp)
      | cons second more =>
          refine readsMember_braces plain h (text_write_union first plain)
            (fun n => Group.fits_union rfl rfl) ?_
          rw [Group.rewrite, Group.rewriteAll_eq_map]
          rfl

/-- A child of any kind, from what it holds or, for a union, from what its alternatives hold. -/
theorem readsMember_child (hns : ns.Labelled) (h : g.Everywhere printableChecks)
    (own : g.kind.isUnion = false → ReadsContent ns (indent + 2) g)
    (alternatives : ∀ a ∈ g.children, a.kind.isUnion = false → ReadsContent ns (indent + 2) a) :
    ReadsMember ns indent (.child g) := by
  obtain ⟨kind, elements, children, data, span⟩ := g
  obtain ⟨⟨formed, legal, _, plain⟩, named, _⟩ := h
  cases kind with
  | group => exact readsMember_plain rfl (own rfl)
  | optional =>
      exact readsMember_wordGroup .OPTIONAL (by decide) rfl rfl
        (fun level d c here => bind_eq_of_ok here) (own rfl)
  | union =>
      refine readsMember_union rfl formed (plain rfl) fun a member => alternatives a member ?_
      rw [plain rfl a member]
      rfl
  | minus =>
      exact readsMember_wordGroup .MINUS (by decide) rfl rfl
        (fun level d c here => bind_eq_of_ok here) (own rfl)
  | graph name =>
      obtain ⟨name, rfl, found⟩ := legal
      exact readsMember_graph hns rfl named.1 named.2 found (own rfl)
  | service endpoint silent =>
      obtain ⟨name, rfl, found⟩ := legal
      exact readsMember_service hns rfl named.1 named.2 found (own rfl)

end Children

section Content
variable {ns : Namespaces} {indent : Nat} {g : Group}

/-- How a nested selection is read in front of the closing brace of its group. -/
structure ReadsSubSelect (ns : Namespaces) (indent : Nat) (q : Query) : Prop where
  opens : ∀ rest, ((q.write ns indent).text ++ rest).first = .keyword .SELECT (utf8 "SELECT")
  reads : ∀ n rest, rest.first = .symbol .rbrace → Fares (subSelect (Level.ofAllowance ns n))
    (q.write ns indent).text (q.Fits n) (q.rewrite reread) rest

/-- What a group of members holds. -/
theorem readsContent_members (noQuery : ∀ e ∈ g.elements, e.isSubquery = false)
    (h : ∀ m ∈ g.members, ReadsMember ns indent m) : ReadsContent ns indent g := by
  intro n rest closes
  have changes : ReadsChanges (member? (Level.ofAllowance ns n)) (fun _ => True) FollowsMember
      (Member.text ns indent) (Member.Fits n) Member.addTo g.members :=
    ⟨fun m member d t _ follows => (h m member).reads n d t follows, fun _ _ _ _ => trivial,
      fun m member t _ => (h m member).follows t, fun m member => (h m member).nonempty⟩
  have ends : FollowsMember rest := followsMember_of_first closes ⟨nofun, nofun⟩
  have stop : ∀ d, True →
      member? (Level.ofAllowance ns n) d (before rest) = .ok (none, before rest) :=
    fun d _ => bind_eq_of_ok (lexeme_at closes)
  have noSelect := (changes.follow ends).noSelect
  have read : Fares (repeatFrom (member? (Level.ofAllowance ns n)) {})
      (g.members.flatMap (Member.text ns indent)) (g.ContentFits n)
      (g.members.foldl Member.addTo {}) rest :=
    (changes.repeatFrom ends stop trivial).congr Group.fits_members
  rw [Group.foldl_addTo] at read
  rw [Group.text_writeContent noQuery]
  exact Reads.isAtKeyword (beq_eq_false_iff_ne.mpr noSelect) read

/-- What a group holds that a nested selection fills. -/
theorem readsContent_subSelect {q : Query} {kind : GroupKind} {querySpan span : Span}
    (h : ReadsSubSelect ns indent q) :
    ReadsContent ns indent ⟨kind, [.subquery (some q) querySpan], [], none, span⟩ := by
  intro n rest closes
  have written : (Group.writeContent ns indent
      ⟨kind, [.subquery (some q) querySpan], [], none, span⟩).text = (q.write ns indent).text := by
    simp [Group.writeContent, Element.writeList, writeData, Group.writeChildren]
  have fits : Group.ContentFits n ⟨kind, [.subquery (some q) querySpan], [], none, span⟩ ↔
      q.Fits n := by
    simp [Group.ContentFits, Element.fits_subquery]
  rw [written]
  refine (Reads.isAtKeyword (b := true) ?_ (Reads.position ?_)).congr fits.symm
  · rw [h.opens rest]
    rfl
  · exact (h.reads n rest closes).bind_pure (bind_eq_of_ok (position_before rest))

end Content

end Grammar

end SparqlMetrics
