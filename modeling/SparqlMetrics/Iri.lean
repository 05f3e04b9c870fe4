import SparqlMetrics.Text.Basic

/-!
# IRIs

An IRI is absolute when it opens with a scheme. A relative reference is resolved against an absolute
base by the component rules of RFC 3986, except that dot segments stay as they are written, and that
a path is put behind a slash where the base has neither an authority nor a slash in its path.
-/
namespace SparqlMetrics.Iri

/-- The namespace of the RDF vocabulary's `type` property, which the keyword `a` abbreviates. -/
def rdfType : Text := utf8 "http://www.w3.org/1999/02/22-rdf-syntax-ns#type"

def xsdNamespace : Text := utf8 "http://www.w3.org/2001/XMLSchema#"

/-- A byte of a scheme behind its first letter. -/
def isSchemeByte (b : Byte) : Bool :=
  b.isAlnum || b == Byte.plus || b == Byte.hyphen || b == Byte.dot

/-- Whether scheme bytes and then a colon are ahead. -/
def endsScheme : Text → Bool
  | [] => false
  | b :: rest => b == Byte.colon || (isSchemeByte b && endsScheme rest)

def hasScheme : Text → Bool
  | [] => false
  | b :: rest => b.isAlpha && endsScheme rest

def withoutFragment (iri : Text) : Text := iri.takeWhile (· != Byte.hash)

def withoutQuery (iri : Text) : Text :=
  (withoutFragment iri).takeWhile (· != Byte.question)

def scheme (iri : Text) : Text := iri.takeWhile (· != Byte.colon)

/-- What stands behind the scheme and its colon. -/
def schemeSpecific (iri : Text) : Text := (iri.dropWhile (· != Byte.colon)).tail

def endsAuthority (b : Byte) : Bool := b == Byte.slash || b == Byte.question || b == Byte.hash

/-- The authority with its two slashes, or nothing. -/
def authority (iri : Text) : Text :=
  match schemeSpecific iri with
  | a :: b :: rest =>
    if a == Byte.slash && b == Byte.slash then a :: b :: rest.takeWhile (!endsAuthority ·) else []
  | _ => []

/-- The scheme with its colon and the authority. -/
def root (iri : Text) : Text := scheme iri ++ Byte.colon :: authority iri

/-- A path up to its last slash, that slash included; nothing when it has none. -/
def directory (path : Text) : Text := (path.reverse.dropWhile (· != Byte.slash)).reverse

/-- The reference seen from the place of the base's path. -/
def merge (base reference : Text) : Text :=
  let folder := directory ((withoutQuery base).drop (root base).length)
  if folder.isEmpty then root base ++ Byte.slash :: reference
  else root base ++ folder ++ reference

/-- Resolves a relative reference against an absolute base. -/
def resolve (base reference : Text) : Text :=
  match reference with
  | [] => withoutFragment base
  | b :: rest =>
    if b == Byte.hash then withoutFragment base ++ reference
    else if b == Byte.slash then
      if rest.head? = some Byte.slash then scheme base ++ Byte.colon :: reference
      else root base ++ reference
    else if b == Byte.question then withoutQuery base ++ reference
    else merge base reference

end SparqlMetrics.Iri
