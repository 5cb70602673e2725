import WatchList.Catalog.Table
import WatchList.Settings
import WatchList.Storage.Path
/-!
# Files

What the runs of the program share: a tree of directories, with files and catalogs in it.

A path is walked name by name, and each name needs a directory to stand in.  So a walk fails where there is nothing,
and it is barred where a file lies in the way or a name is too long.  The difference matters to what makes files: what
is missing can be made, what bars the way stays.
-/
namespace WatchList

/-- What is at a place, with everything below it. -/
inductive Node where
  | directory (entries : List (Name × Node))
  | file (content : ByteArray)
  | catalog (t : Table)
  | other

namespace Node

/-- What is at a place below a node. -/
def at? : Place → Node → Option Node
  | [], n => some n
  | name :: p, .directory entries => (entries.lookup name).bind (at? p)
  | _ :: _, _ => none

def put (new : Node) : Place → Node → Node
  | [], _ => new
  | name :: p, .directory entries =>
    let below := (entries.lookup name).getD (.directory [])
    .directory ((name, put new p below) :: entries.filter fun e => e.1 != name)
  | _ :: _, n => n

def isDirectory : Node → Bool
  | .directory _ => true
  | _ => false

end Node

/-- The files around the program. -/
structure Files where
  home : Text
  /-- The directory where the program runs. -/
  workplace : Place
  /-- The directory that holds everything. -/
  root : Node := .directory []

/-- Why a walk does not arrive. -/
inductive Obstacle where
  | missing
  | barred
deriving DecidableEq, Repr

namespace Files

def node? (p : Place) (f : Files) : Option Node := f.root.at? p

def put (p : Place) (n : Node) (f : Files) : Files := { f with root := Node.put n p f.root }

/-! ## Walks -/

def greatestName : Nat := 255

/-- One name further on from a place, which must be a directory. -/
def step (f : Files) (p : Place) (name : Name) : Except Obstacle Place :=
  match f.node? p with
  | none => .error .missing
  | some (.directory _) => if greatestName < name.length then .error .barred else .ok (p.enter name)
  | some _ => .error .barred

/-- Where the names of a path start. -/
def startOf (p : Path) (f : Files) : Place := if p.isAbsolute then [] else f.workplace

def find? (p : Path) (f : Files) : Option Node :=
  if p.isEmpty then none
  else
    match p.names.foldlM f.step (f.startOf p) with
    | .ok place => f.node? place
    | .error _ => none

/-! ## Directories -/

/-- Makes the directories that names lead through from a place on, as far as they are missing.  Says whether all of
them are there in the end; what was made before one could not be made stays. -/
def makeDirectories (p : Place) : List Name → Files → Bool × Files
  | [], f => (true, f)
  | name :: names, f =>
    match f.step p name with
    | .error _ => (false, f)
    | .ok q =>
      match f.node? q with
      | none => makeDirectories q names (f.put q (.directory []))
      | some (.directory _) => makeDirectories q names f
      | some _ => (false, f)

/-- Makes the directory that a path leads into. -/
def prepare (p : Path) (f : Files) : Bool × Files :=
  if p.directory.isSound then f.makeDirectories (f.startOf p.directory) p.directory.names else (false, f)

/-! ## The settings file -/

/-- The content of the settings file, or nothing if there is none; an error if it cannot be read. -/
def settings (f : Files) : Except Error (Option ByteArray) :=
  match f.find? (Path.ofText (Settings.path f.home)) with
  | none => .ok none
  | some (.file content) => .ok (some content)
  | some _ => .error (.io "the settings file cannot be read".toList)

end Files

end WatchList
