import SparqlMetrics.Algebra.Query
import SparqlMetrics.Text.Numeral
import SparqlMetrics.Written.Passage
import SparqlMetrics.Written.Term

/-!
# The written form of queries

A query is written in lines: one declaration a line, the form, the dataset, the pattern between
braces and the modifiers, nested parts indented by two more spaces. Within a group the elements come
first, then the table, then the child groups. An expression is written on one line with the brackets
its operators need; the group of an EXISTS test spans lines, its first brace on the line of the
keyword. Main definition: `QueryUnit.write`.
-/
namespace SparqlMetrics

def line (indent : Nat) (s : Text) : Text := Text.spaces indent ++ s ++ [Byte.newline]

/-- How tightly a binary operator binds. -/
def precedence (op : Text) : Nat :=
  if op = utf8 "||" then 1
  else if op = utf8 "&&" then 2
  else if op = utf8 "+" || op = utf8 "-" then 4
  else if op = utf8 "*" || op = utf8 "/" then 5
  else 3

/-- The precedence of a comparison or a membership test. -/
def comparisonPrecedence : Nat := 3

namespace Expression

/-- Whether an expression needs brackets behind a prefix operator. -/
def breaksUnary : Expression → Bool
  | .binary _ _ _ => true
  | .unary _ _ _ => true
  | .member _ _ _ => true
  | _ => false

/-- Whether an expression needs brackets as an operand of a binary operator. -/
def breaksBinary (parent : Nat) (right : Bool) : Expression → Bool
  | .binary op _ _ => precedence op < parent || (right && precedence op == parent)
  | .member _ _ _ => true
  | _ => false

/-- Whether an expression stands as a constraint without brackets. A variable does so among grouping
and ordering conditions. -/
def standsAlone (allowVariable : Bool) : Expression → Bool
  | .call _ _ _ _ => true
  | .aggregate _ _ _ _ _ _ => true
  | .exists _ _ _ => true
  | .term t _ => allowVariable && t.node.varName?.isSome
  | _ => false

end Expression

def Triple.write (ns : Namespaces) (t : Triple) : Text :=
  t.subject.write ns ++ Byte.space :: t.predicate.writePredicate ns ++ Byte.space ::
    t.object.write ns ++ utf8 " ."

def Callee.write (ns : Namespaces) : Callee → Text
  | .builtin name => name
  | .iri function => function.write ns

def separatorText : Option Text → Text
  | none => []
  | some separator => utf8 "; SEPARATOR=" ++ quoted separator

def cellText (ns : Namespaces) : Option Term → Text
  | none => utf8 "UNDEF"
  | some t => t.write ns

/-- Items in brackets, a space before each and one at the end. -/
def spacedItems (items : List Text) : Text :=
  Text.bracketed (items.flatMap (fun item => Byte.space :: item) ++ [Byte.space])

def InlineData.write (ns : Namespaces) (indent : Nat) (data : InlineData) : Text :=
  line indent
      (utf8 "VALUES " ++ spacedItems (data.columns.map fun name => Byte.question :: name)) ++
    line indent [Byte.lbrace] ++
    data.rows.flatMap (fun cells => line (indent + 2) (spacedItems (cells.map (cellText ns)))) ++
    line indent [Byte.rbrace]

def writeData (ns : Namespaces) (indent : Nat) : Option InlineData → Text
  | none => []
  | some data => data.write ns indent

def SelectModifier.word : SelectModifier → Text
  | .none => []
  | .distinct => utf8 " DISTINCT"
  | .reduced => utf8 " REDUCED"

/-- The word that introduces a named graph or service, with its name. -/
def GroupKind.heading (ns : Namespaces) : GroupKind → Text
  | .optional => utf8 "OPTIONAL"
  | .minus => utf8 "MINUS"
  | .graph none => utf8 "GRAPH ?graph"
  | .graph (some name) => utf8 "GRAPH " ++ name.write ns
  | .service none silent => utf8 (if silent then "SERVICE SILENT ?service" else "SERVICE ?service")
  | .service (some endpoint) silent =>
    utf8 (if silent then "SERVICE SILENT " else "SERVICE ") ++ endpoint.write ns
  | _ => []

/-- The line of a group's heading; a plain group and a union have none. -/
def GroupKind.headingLine (ns : Namespaces) (indent : Nat) (kind : GroupKind) : Text :=
  if (kind.heading ns).isEmpty then [] else line indent (kind.heading ns)

def DatasetClause.write (ns : Namespaces) (clause : DatasetClause) : Text :=
  utf8 (if clause.named then "FROM NAMED " else "FROM ") ++ ns.writeIri clause.iri

/-- The line of a clause with a number. -/
def countLine (indent : Nat) (name : String) : Option Int → Text
  | none => []
  | some count => line indent (utf8 name ++ Text.ofInt count)

/-- A line of conditions behind a keyword, unless there are none. -/
def conditionLine (indent : Nat) (name : String) (absent : Bool) (conditions : Passage) : Passage :=
  if absent then .empty else .line indent (utf8 name ++ conditions)

/-- An expression under a name. -/
def namedExpression (value : Passage) (name : Text) : Passage :=
  (value ++ (utf8 " AS ?" ++ name)).bracketed

/-- A direction around the written form of its condition. -/
def Direction.wrap (direction : Direction) (bare value : Passage) : Passage :=
  match direction with
  | .unmarked => bare
  | .ascending => utf8 "ASC" ++ value.bracketed
  | .descending => utf8 "DESC" ++ value.bracketed

/-- Lines between braces on lines of their own. -/
def braces (indent : Nat) (content : Passage) : Passage :=
  line indent [Byte.lbrace] ++ content ++ line indent [Byte.rbrace]

/-- Lines between braces, the first of which follows a word and the last of which ends no line. -/
def inlineBraces (indent : Nat) (content : Passage) : Passage :=
  [Byte.lbrace, Byte.newline] ++ content ++ (Text.spaces indent ++ [Byte.rbrace])

def GroupKind.isUnion : GroupKind → Bool
  | .union => true
  | _ => false

def GroupKind.isPlain : GroupKind → Bool
  | .group => true
  | _ => false

mutual

/-- An expression in writing at an indentation. -/
def Expression.write (ns : Namespaces) (indent : Nat) : Expression → Passage
  | .term t _ => t.write ns
  | .unary op [] _ => op
  | .unary op (operand :: _) _ =>
    op ++ Passage.bracketedIf operand.breaksUnary (operand.write ns indent)
  | .binary op [left, right] _ =>
    Passage.bracketedIf (left.breaksBinary (precedence op) false) (left.write ns indent) ++
      (Byte.space :: op ++ [Byte.space]) ++
      Passage.bracketedIf (right.breaksBinary (precedence op) true) (right.write ns indent)
  | .binary _ args _ => Expression.writeList ns indent args
  | .call callee distinct args _ =>
    callee.write ns ++
      Passage.bracketed (utf8 (if distinct then "DISTINCT " else "") ++
        Expression.writeList ns indent args)
  | .aggregate name distinct star args separator _ =>
    name ++ Passage.bracketed (utf8 (if distinct then "DISTINCT " else "") ++
      (if star then .part [Byte.star] else Expression.writeList ns indent args) ++
      separatorText separator)
  | .member _ [] _ => .empty
  | .member negated (left :: items) _ =>
    Passage.bracketedIf (left.breaksBinary comparisonPrecedence false) (left.write ns indent) ++
      utf8 (if negated then " NOT IN " else " IN ") ++
      Passage.bracketed (Expression.writeList ns indent items)
  | .exists negated none _ => utf8 (if negated then "NOT EXISTS \x7b \x7d" else "EXISTS \x7b \x7d")
  | .exists negated (some pattern) _ =>
    utf8 (if negated then "NOT EXISTS " else "EXISTS ") ++
      inlineBraces indent (pattern.writeContent ns (indent + 2))

def Expression.writeList (ns : Namespaces) (indent : Nat) : List Expression → Passage
  | [] => .empty
  | e :: rest => e.write ns indent ++ Expression.writeMore ns indent rest

/-- Expressions in writing, a comma before each. -/
def Expression.writeMore (ns : Namespaces) (indent : Nat) : List Expression → Passage
  | [] => .empty
  | e :: rest => utf8 ", " ++ e.write ns indent ++ Expression.writeMore ns indent rest

def Element.write (ns : Namespaces) (indent : Nat) : Element → Passage
  | .triple t => line indent (t.write ns)
  | .path subject path object _ =>
    line indent (subject.write ns ++ Byte.space :: path.write ns ++ Byte.space ::
      object.write ns ++ utf8 " .")
  | .filter condition _ =>
    .line indent (utf8 "FILTER " ++
      Passage.bracketedIf (!condition.standsAlone false) (condition.write ns indent))
  | .subquery none _ => braces indent .empty
  | .subquery (some query) _ => braces indent (query.write ns (indent + 2))
  | .bind value target _ =>
    .line indent (utf8 "BIND " ++
      Passage.bracketed (value.write ns indent ++ (utf8 " AS " ++ target.write ns)))

/-- Elements in writing. A sub-query that is all its group holds needs no braces of its own. -/
def Element.writeList (ns : Namespaces) (indent : Nat) (alone : Bool) : List Element → Passage
  | [] => .empty
  | [.subquery none _] => if alone then .empty else braces indent .empty
  | [.subquery (some query) _] =>
    if alone then query.write ns indent else braces indent (query.write ns (indent + 2))
  | element :: rest => element.write ns indent ++ Element.writeList ns indent false rest

def Group.writeContent (ns : Namespaces) (indent : Nat) : Group → Passage
  | ⟨_, elements, children, data, _⟩ =>
    Element.writeList ns indent (children.isEmpty && data.isNone) elements ++
      writeData ns indent data ++ Group.writeChildren ns indent children

/-- The children of a union in writing. -/
def Group.writeAlternatives (ns : Namespaces) (indent : Nat) : Group → Passage
  | ⟨_, _, alternatives, _, _⟩ => Group.writeUnion ns indent true alternatives

def Group.writeChildren (ns : Namespaces) (indent : Nat) : List Group → Passage
  | [] => .empty
  | child :: rest =>
    (if child.kind.isUnion then child.writeAlternatives ns indent
     else child.kind.headingLine ns indent ++ braces indent (child.writeContent ns (indent + 2))) ++
      Group.writeChildren ns indent rest

/-- The alternatives of a union in writing; one that is not a plain group is put into one. -/
def Group.writeUnion (ns : Namespaces) (indent : Nat) (first : Bool) : List Group → Passage
  | [] => .empty
  | g :: rest =>
    (if first then [] else line indent (utf8 "UNION")) ++
      braces indent
        (if g.kind.isPlain then g.writeContent ns (indent + 2)
         else if g.kind.isUnion then g.writeAlternatives ns (indent + 2)
         else g.kind.headingLine ns (indent + 2) ++
          braces (indent + 2) (g.writeContent ns (indent + 4))) ++
      Group.writeUnion ns indent false rest

/-- Projected items in writing, a space before each. -/
def Projection.writeList (ns : Namespaces) : List Projection → Passage
  | [] => .empty
  | ⟨name, none, _⟩ :: rest => (utf8 " ?" ++ name) ++ Projection.writeList ns rest
  | ⟨name, some value, _⟩ :: rest =>
    [Byte.space] ++ namedExpression (value.write ns 0) name ++ Projection.writeList ns rest

def Form.write (ns : Namespaces) (indent : Nat) : Form → Passage
  | .select modifier true _ => line indent (utf8 "SELECT" ++ modifier.word ++ utf8 " *")
  | .select modifier false items =>
    .line indent ((utf8 "SELECT" ++ modifier.word) ++ Projection.writeList ns items)
  | .ask => line indent (utf8 "ASK")
  | .construct template =>
    line indent (utf8 "CONSTRUCT") ++ line indent [Byte.lbrace] ++
      template.flatMap (fun t => line (indent + 2) (t.write ns)) ++ line indent [Byte.rbrace]
  | .describe everything targets =>
    line indent (utf8 (if everything then "DESCRIBE *" else "DESCRIBE") ++
      targets.flatMap fun t => Byte.space :: t.write ns)

def GroupCondition.writeList (ns : Namespaces) (indent : Nat) : List GroupCondition → Passage
  | [] => .empty
  | ⟨value, some name⟩ :: rest =>
    [Byte.space] ++ namedExpression (value.write ns indent) name ++
      GroupCondition.writeList ns indent rest
  | ⟨value, none⟩ :: rest =>
    [Byte.space] ++ Passage.bracketedIf (!value.standsAlone true) (value.write ns indent) ++
      GroupCondition.writeList ns indent rest

/-- Constraints in writing, a space before each. -/
def Expression.writeConstraints (ns : Namespaces) (indent : Nat) : List Expression → Passage
  | [] => .empty
  | value :: rest =>
    [Byte.space] ++ Passage.bracketedIf (!value.standsAlone false) (value.write ns indent) ++
      Expression.writeConstraints ns indent rest

def OrderCondition.writeList (ns : Namespaces) (indent : Nat) : List OrderCondition → Passage
  | [] => .empty
  | ⟨value, direction⟩ :: rest =>
    [Byte.space] ++
      direction.wrap (Passage.bracketedIf (!value.standsAlone true) (value.write ns indent))
        (value.write ns indent) ++
      OrderCondition.writeList ns indent rest

/-- A query in writing without its prologue. A description without a pattern has no WHERE lines. -/
def Query.write (ns : Namespaces) (indent : Nat) : Query → Passage
  | ⟨form, _, dataset, root, groupBy, having, orderBy, limit, offset, values, _⟩ =>
    form.write ns indent ++
      dataset.flatMap (fun clause => line indent (clause.write ns)) ++
      (if form.isDescribe && root.isEmpty then .empty
       else line indent (utf8 "WHERE") ++ braces indent (root.writeContent ns (indent + 2))) ++
      conditionLine indent "GROUP BY" groupBy.isEmpty
        (GroupCondition.writeList ns indent groupBy) ++
      conditionLine indent "HAVING" having.isEmpty
        (Expression.writeConstraints ns indent having) ++
      conditionLine indent "ORDER BY" orderBy.isEmpty
        (OrderCondition.writeList ns indent orderBy) ++
      (countLine indent "LIMIT " limit ++ countLine indent "OFFSET " offset) ++
      writeData ns indent values

end

def Namespaces.write (ns : Namespaces) : Text :=
  ns.entries.flatMap (fun entry =>
      line 0 (utf8 "PREFIX " ++ entry.1 ++ utf8 ": " ++ Text.angled entry.2)) ++
    (ns.base.map fun base => line 0 (utf8 "BASE " ++ Text.angled base)).getD []

def QueryUnit.write (unit : QueryUnit) : Text :=
  unit.namespaces.write ++ (unit.query.write unit.namespaces 0).text

end SparqlMetrics
