import SparqlMetrics.Algebra.Path
import SparqlMetrics.Namespaces

/-!
# The written form of terms and paths

An IRI is written under the longest declared namespace that leaves a plain local name, and in angle
brackets when there is none. A literal is quoted with its tag or datatype unless it is a short one.
The type property is written `a` as a predicate. A path is written with the brackets that its
operators need and no others.
-/
namespace SparqlMetrics

/-- Whether a text can follow a label and its colon as it is: ASCII letters, digits, underscores,
hyphens and dots, neither of the last two in front and no dot at the end. -/
def isPlainLocalName (name : Text) : Bool :=
  name.all (fun b => b.isAlnum || b == Byte.underscore || b == Byte.hyphen || b == Byte.dot) &&
    name.head? != some Byte.hyphen && name.head? != some Byte.dot &&
    name.getLast? != some Byte.dot

/-- Whether an entry of a namespace map can shorten an IRI. -/
def canShorten (iri : Text) (entry : Text × Text) : Bool :=
  !entry.2.isEmpty && entry.2.isPrefixOf iri && isPlainLocalName (iri.drop entry.2.length)

/-- The better of two entries: the later one only when its namespace is longer. -/
def longerEntry (best : Option (Text × Text)) (entry : Text × Text) : Option (Text × Text) :=
  match best with
  | none => some entry
  | some known => if known.2.length < entry.2.length then some entry else some known

/-- The entry that an IRI is written under. -/
def Namespaces.entryFor? (iri : Text) (ns : Namespaces) : Option (Text × Text) :=
  (ns.entries.filter (canShorten iri)).foldl longerEntry none

/-- An IRI as a prefixed name or in angle brackets. -/
def Namespaces.writeIri (ns : Namespaces) (iri : Text) : Text :=
  match ns.entryFor? iri with
  | some entry => entry.1 ++ Byte.colon :: iri.drop entry.2.length
  | none => Text.angled iri

/-- The escape of a byte inside quotes. -/
def escapeByte (b : Byte) : Text :=
  if b == Byte.backslash || b == Byte.quote then [Byte.backslash, b]
  else if b == Byte.newline then utf8 "\\n"
  else if b == Byte.carriageReturn then utf8 "\\r"
  else if b == Byte.tab then utf8 "\\t"
  else [b]

def quoted (value : Text) : Text :=
  Byte.quote :: value.flatMap escapeByte ++ [Byte.quote]

def Literal.write (ns : Namespaces) (l : Literal) : Text :=
  if l.short then l.value
  else
    match l.language, l.datatype with
    | some tag, _ => quoted l.value ++ Byte.atSign :: tag
    | none, some datatype => quoted l.value ++ utf8 "^^" ++ ns.writeIri datatype
    | none, none => quoted l.value

def Term.write (ns : Namespaces) (t : Term) : Text :=
  match t.node with
  | .iri value => ns.writeIri value
  | .literal l => l.write ns
  | .blank label => utf8 "_:" ++ label
  | .var name => Byte.question :: name

def Term.writePredicate (ns : Namespaces) (t : Term) : Text :=
  if t.node = .iri Iri.rdfType then utf8 "a" else t.write ns

def Repetition.mark : Repetition → Byte
  | .zeroOrMore => Byte.star
  | .oneOrMore => Byte.plus
  | .zeroOrOne => Byte.question

namespace Path

/-- Whether a path needs no brackets before a repetition mark. -/
def isPrimary : Path → Bool
  | .step _ => true
  | .negated _ => true
  | _ => false

/-- Whether a path needs no brackets behind an inversion mark. -/
def isElement : Path → Bool
  | .repeated _ _ => true
  | p => p.isPrimary

/-- Whether a path needs brackets as the left part of a join. -/
def breaksLeft (how : PathJoin) : Path → Bool
  | .join .alternative _ _ => how == .sequence
  | _ => false

/-- A text between brackets when it needs them. -/
def bracketedIf (needed : Bool) (s : Text) : Text := if needed then Text.bracketed s else s

def joinMark : PathJoin → Byte
  | .sequence => Byte.slash
  | .alternative => Byte.pipe

/-- A path in writing. A step that is no resource is the placeholder of an empty set. -/
def write (ns : Namespaces) : Path → Text
  | .step predicate =>
    if predicate.node.isResource then predicate.writePredicate ns else utf8 "()"
  | .inverse inner => Byte.caret :: bracketedIf (!inner.isElement) (inner.write ns)
  | .repeated times inner => bracketedIf (!inner.isPrimary) (inner.write ns) ++ [times.mark]
  | .negated inner => Byte.bang :: bracketedIf inner.isJoin (inner.write ns)
  | .join how left right =>
    bracketedIf (left.breaksLeft how) (left.write ns) ++ joinMark how ::
      bracketedIf right.isJoin (right.write ns)

end Path

end SparqlMetrics
