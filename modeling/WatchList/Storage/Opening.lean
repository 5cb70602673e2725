import WatchList.Storage.Address
import WatchList.Storage.Files
/-!
# Opening catalogs

A catalog is opened at a path.  First the directory that the path leads into is made; then the path is read as an
address; and where the address leads, an empty catalog is made unless there is one.  A file that holds at most one
byte counts as an empty catalog.  What was made before the opening failed stays.

The program has several connections to its catalog, and each of them goes the whole way.  So the way must still be open
when the file is there: a path that passes the place of its catalog as if it were a directory opens nothing.
-/
namespace WatchList

structure Opened where
  table : Table := {}
  place? : Option Place

namespace Files

/-- The size that the path of a catalog, looked up name by name, must stay below. -/
def addressBound : Nat := 512

/-- The greatest size of the path of a catalog: there are other files beside it, with longer names. -/
def greatestAddress : Nat := 504

/-- The greatest size of the name of a catalog in its directory. -/
def greatestCatalogName : Nat := 247

/-- One name further on from a place, in the path of a catalog.  What is there may be missing, but not barred. -/
def seek? (f : Files) (p : Place) (name : Name) : Option Place :=
  let q := p.enter name
  if q.length ≤ p.length then some q
  else if addressBound ≤ q.size then none
  else
    match f.step p name with
    | .error .barred => none
    | _ => some q

def catalogPlace? (name : Path) (f : Files) : Option Place :=
  (name.names.foldlM f.seek? (f.startOf name)).filter (·.size ≤ greatestAddress)

/-- The file that a catalog is to have its permissions from is not there. -/
def lacksModel (a : Address) (f : Files) : Bool := (a.value? "modeof").any fun p => (f.find? p).isNone

def openAt (p : Place) (access : Access) (a : Address) (f : Files) : Option Opened × Files :=
  let isUsable := access != .read && !a.isFixed && p.getLast?.all (·.length ≤ greatestCatalogName)
  let opened (t : Table) := if isUsable then some (Opened.mk t (some p)) else none
  match f.node? p with
  | some (.catalog t) => (opened t, f)
  | some (.file content) => (if content.size ≤ 1 then opened {} else none, f)
  | some _ => (none, f)
  | none =>
    if access = .create && (f.node? p.dropLast).any Node.isDirectory then (opened {}, f.put p (.file .empty))
    else (none, f)

def connect (a : Address) (f : Files) : Option Opened × Files :=
  match a.keeping? with
  | none => (none, f)
  | some .passing => (some ⟨{}, none⟩, f)
  | some (.file access) =>
    match f.catalogPlace? a.name with
    | none => (none, f)
    | some p => if f.lacksModel a then (none, f) else f.openAt p access a

/-- Opens the catalog of an address: one connection, and then another one, which finds what the first has made. -/
def openAddress (a : Address) (f : Files) : Option Opened × Files :=
  match f.connect a with
  | (none, f) => (none, f)
  | (some _, f) => f.connect a

def openCatalog (path : Text) (f : Files) : Option Opened × Files :=
  let p := Path.ofText path
  match f.prepare p with
  | (false, f) => (none, f)
  | (true, f) =>
    if p.contains 0 then (none, f)
    else
      match Address.ofPath? p with
      | none => (none, f)
      | some a => f.openAddress a

def keep (o : Opened) (t : Table) (f : Files) : Files :=
  match o.place? with
  | none => f
  | some p => f.put p (.catalog t)

end Files

end WatchList
