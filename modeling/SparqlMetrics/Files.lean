import SparqlMetrics.Text.Numeral
import SparqlMetrics.Text.Order
import SparqlMetrics.Text.Search

/-!
# Files

The program reads one file, makes a directory with its parents and writes files. Those three
operations are a class, so that the program is one definition for a real file system and for a file
tree in memory. The tree looks names up part by part as POSIX does: a path ends at its first zero
byte, its length and that of each name are limited, and a name in the middle of a path, or one with
a slash behind it, must be a directory. Main definitions: `MonadFiles`, `FileTree`.
-/
namespace SparqlMetrics

/-- Why a directory cannot be made or a name is not found. -/
inductive FileError where
  | notFound
  | notADirectory
  | alreadyExists
  | invalidArgument
  | nameTooLong
  deriving DecidableEq, Repr

def FileError.message : FileError → Text
  | .notFound => utf8 "No such file or directory"
  | .notADirectory => utf8 "Not a directory"
  | .alreadyExists => utf8 "File exists"
  | .invalidArgument => utf8 "Invalid argument"
  | .nameTooLong => utf8 "File name too long"

inductive WriteError where
  | cannotOpen
  | cannotWrite
  deriving DecidableEq, Repr

def WriteError.message (path : Text) : WriteError → Text
  | .cannotOpen => utf8 "Failed to open file for writing: " ++ path
  | .cannotWrite => utf8 "Failed to write file: " ++ path

/-- The operations on files that the program uses. -/
class MonadFiles (m : Type → Type) where
  /-- The content of a file, if it can be opened; a directory has none. -/
  readFile (path : Text) : m (Option Text)
  /-- Makes a directory and those above it. -/
  makeDirectories (path : Text) : m (Except FileError Unit)
  /-- Replaces the content of a file. -/
  writeFile (path content : Text) : m (Except WriteError Unit)

def isAbsolute (path : Text) : Bool := path.head? == some Byte.slash

def pathAppend (directory name : Text) : Text :=
  if directory.isEmpty || directory.getLast? == some Byte.slash then directory ++ name
  else directory ++ Byte.slash :: name

/-- What a name stands for: a file with its content, or a directory with its entries. -/
inductive FileNode where
  | file (content : Text)
  | directory (entries : List (Text × FileNode))

namespace FileNode

/-- The entry of a directory under a name. -/
def child? (name : Text) : FileNode → Option FileNode
  | .file _ => none
  | .directory entries => entries.lookup name

/-- Sets what stands under a list of names. Directories are put where the way is not open. -/
def put (node : FileNode) : List Text → FileNode → FileNode
  | [], _ => node
  | name :: names, .directory entries =>
    .directory (TextMap.alterEntry name (.directory []) (put node names) entries)
  | name :: names, .file _ => .directory [(name, put node names (.directory []))]

end FileNode

/-- How far a path has led: the names passed from the root, the last one first, each with what
stands there. -/
structure Place where
  root : FileNode
  passed : List (Text × Option FileNode) := []

namespace Place

/-- What stands at a place. -/
def node? (place : Place) : Option FileNode :=
  match place.passed with
  | [] => some place.root
  | (_, node) :: _ => node

/-- The names that lead to a place from the root. -/
def names (place : Place) : List Text := (place.passed.map (·.1)).reverse

/-- The place of a name in a directory. -/
def enter (name : Text) (place : Place) : Place :=
  { place with passed := (name, place.node?.bind (·.child? name)) :: place.passed }

/-- The place one directory up; there is none above the root. -/
def leave (place : Place) : Place := { place with passed := place.passed.tail }

def maxNameLength : Nat := 255

/-- A part of a path that names no entry of its own directory: nothing or the directory itself. -/
def isIdle (part : Text) : Bool := part.isEmpty || part == utf8 "."

/-- A part of a path that leads one directory up. -/
def isUp (part : Text) : Bool := part == utf8 ".."

/-- Goes on by one part of a path. Whatever has a part behind it must be a directory. -/
def step (place : Place) (part : Text) : Except FileError Place :=
  match place.node? with
  | none => .error .notFound
  | some (.file _) => .error .notADirectory
  | some (.directory _) =>
    if isIdle part then .ok place
    else if isUp part then .ok place.leave
    else if maxNameLength < part.length then .error .nameTooLong
    else .ok (place.enter part)

end Place

/-- A tree of files, and the names that lead from its root to the working directory. -/
structure FileTree where
  root : FileNode
  working : List Text

namespace FileTree

/-- A tree with nothing but an empty working directory. Its name is one that no path can spell, so a
path that leaves the directory does not lead back. -/
def fresh : FileTree := { root := .directory [([], .directory [])], working := [[]] }

/-- Sets what stands under names from the root. -/
def put (node : FileNode) (names : List Text) (tree : FileTree) : FileTree :=
  { tree with root := FileNode.put node names tree.root }

def maxPathLength : Nat := 4095

/-- Where a path begins. -/
def start (tree : FileTree) (path : Text) : Place :=
  if isAbsolute path then { root := tree.root }
  else tree.working.foldl (fun place name => place.enter name) { root := tree.root }

/-- The place that a path without a zero byte leads to. Nothing need be there, but it must be in a
directory that is. -/
def follow (tree : FileTree) (path : Text) : Except FileError Place :=
  if path.isEmpty then .error .notFound
  else if maxPathLength < path.length then .error .nameTooLong
  else (Text.split [Byte.slash] path).foldlM Place.step (tree.start path)

def locate (tree : FileTree) (path : Text) : Except FileError Place := tree.follow path.upToZero

/-- What stands at a path. -/
def stat (tree : FileTree) (path : Text) : Except FileError FileNode := do
  match (← tree.locate path).node? with
  | some node => .ok node
  | none => .error .notFound

/-- Makes one directory; one that is there already is left alone. -/
def makeDirectory (tree : FileTree) (path : Text) : Except FileError FileTree := do
  let place ← tree.locate path
  match place.node? with
  | some (.directory _) => .ok tree
  | some (.file _) => .error .alreadyExists
  | none => .ok (tree.put (.directory []) place.names)

/-- The path of names, given in reverse order. -/
def pathOf (absolute : Bool) (reversed : List Text) : Text :=
  (if absolute then [Byte.slash] else []) ++ Text.join [Byte.slash] reversed.reverse

/-- The number of directories that are made at one time. -/
def maxMade : Nat := 1000

/-- The paths of the directories that are not there yet, the longest one first, given the names of
a path in reverse order and the number of directories that may be made. A file in the way is an
error. -/
def missingFrom (tree : FileTree) (absolute : Bool) :
    Nat → List Text → Except FileError (List Text)
  | _, [] => .ok []
  | room, name :: above => do
    let named := !(Place.isIdle name || Place.isUp name)
    if named && room == 0 then .error .nameTooLong
    else
      let own := if named then [pathOf absolute (name :: above)] else []
      if above.isEmpty then pure own
      else
        match tree.stat (pathOf absolute above) with
        | .ok (.directory _) => pure own
        | .ok (.file _) => .error .notADirectory
        | .error _ =>
          return own ++ (← missingFrom tree absolute (if named then room - 1 else room) above)

def makeDirectories (tree : FileTree) (path : Text) : Except FileError FileTree :=
  if path.isEmpty then .error .invalidArgument
  else
    match tree.stat path with
    | .ok (.directory _) => .ok tree
    | .ok (.file _) => .error .notADirectory
    | .error .nameTooLong => .error .nameTooLong
    | .error _ => do
      let names := (Text.split [Byte.slash] path).filter (!·.isEmpty)
      let missing ← tree.missingFrom (isAbsolute path) maxMade names.reverse
      missing.reverse.foldlM makeDirectory tree

/-- The content of a file; a directory can be opened and has none. -/
def readFile (tree : FileTree) (path : Text) : Option Text :=
  match tree.stat path with
  | .ok (.file content) => some content
  | .ok (.directory _) => some []
  | .error _ => none

/-- The tree with the content of a file replaced, if the file can be opened. -/
def writeFile (tree : FileTree) (path content : Text) : Option FileTree :=
  match tree.locate path with
  | .error _ => none
  | .ok place =>
    match place.node? with
    | some (.directory _) => none
    | _ => some (tree.put (.file content) place.names)

/-- A path up to its last slash. -/
def directoryPart (path : Text) : Text := (path.reverse.dropWhile (· != Byte.slash)).reverse

/-- A tree with one more file, or with a directory when the path ends with a slash, and with the
directories above it. -/
def add (tree : FileTree) (path content : Text) : FileTree :=
  let opened := (tree.makeDirectories (directoryPart path)).toOption.getD tree
  (opened.writeFile path content).getD opened

/-- A tree with named files in its working directory. -/
def ofList (files : List (Text × Text)) : FileTree :=
  files.foldl (fun tree (path, content) => tree.add path content) fresh

instance : MonadFiles (StateM FileTree) where
  readFile path := do return (← get).readFile path
  makeDirectories path := do
    match (← get).makeDirectories path with
    | .ok tree =>
      set tree
      pure (.ok ())
    | .error e => pure (.error e)
  writeFile path content := do
    match (← get).writeFile path content with
    | some tree =>
      set tree
      pure (.ok ())
    | none => pure (.error .cannotOpen)

end FileTree

end SparqlMetrics
