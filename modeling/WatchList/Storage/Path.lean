import WatchList.Text.Basic
/-!
# Paths

A path tells where a file is: names with slashes between them.  It is a list of bytes, for a name need not be a text,
and the bounds on names and paths count bytes.  A **place** is where a path leads in the end: the names from the root
on, without the points and the double points that a path may hold.
-/
namespace WatchList

abbrev Name := List UInt8

/-- Where a file is: the names from the root on. -/
abbrev Place := List Name

abbrev Path := List UInt8

namespace Path

def ofText (t : Text) : Path := t.flatMap String.utf8EncodeChar

def ofString (s : String) : Path := ofText s.toList

def slash : UInt8 := '/'.toUInt8

def point : UInt8 := '.'.toUInt8

def itself : Name := [point]

def above : Name := [point, point]

def isAbsolute (p : Path) : Bool := p.head? == some slash

/-- The names in a path.  An empty one, as between two slashes, stands for the directory itself. -/
def names (p : Path) : List Name := Text.pieces (· == slash) p

/-- A path from its end on, without slashes and single points there. -/
def tidy : Path → Path
  | [] => []
  | b :: p =>
    if b = slash then tidy p
    else if b = point && p.head? == some slash then tidy p
    else b :: p

/-- The path of the directory that a path leads into; empty if the path is a single name. -/
def directory (p : Path) : Path := (tidy ((tidy p.reverse).dropWhile (· != slash))).reverse

def greatestSize : Nat := 4095

/-- The path is one that the system takes: it holds no zero byte and is not too long. -/
def isSound (p : Path) : Bool := !p.contains 0 && p.length ≤ greatestSize

end Path

namespace Place

/-- A place, one name further on. -/
def enter (p : Place) (name : Name) : Place :=
  if name = [] || name = Path.itself then p
  else if name = Path.above then p.dropLast
  else p ++ [name]

/-- Where a path leads from a place, as far as the names tell. -/
def follow (start : Place) (p : Path) : Place := p.names.foldl enter (if p.isAbsolute then [] else start)

def size (p : Place) : Nat := p.foldl (fun n name => n + 1 + name.length) 0

end Place

end WatchList
