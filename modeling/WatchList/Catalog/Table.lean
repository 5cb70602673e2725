import WatchList.Catalog.Basic
/-!
# The catalog in a file

A table keeps one row for each title.  Two titles are one when they agree up to the case of ASCII letters; letters
beyond ASCII only equal themselves, so the table may hold apart what the catalog in memory takes for one title.  A zero
character ends what is compared: of titles with one, only the part before it and the size count.  Each write gives its
row a revision one above the greatest of the table, so the revisions order the rows by their last writes.
-/
namespace WatchList

/-- A title with its status, the time of its last write and the number of that write. -/
structure Row where
  title : Text
  status : Status
  updatedAt : Text
  revision : Nat
deriving DecidableEq, Repr

/-- Rows in the order in which their titles came in, and the time that a write is stamped with. -/
structure Table where
  rows : List Row := []
  clock : Text := []
deriving DecidableEq, Repr

namespace Table

/-- The part of a title that is compared: what stands before the first zero character. -/
def comparedPart (t : Text) : Text := t.takeWhile (· != '\x00')

/-- The two titles are one: they have the same size, and the parts that are compared agree up to the case of ASCII
letters. -/
def same (s t : Text) : Bool := s.size == t.size && (comparedPart s).sameAscii (comparedPart t)

def lastRevision (rows : List Row) : Nat := (rows.map Row.revision).foldl max 0

/-- Writes a title with a status: in the row of the title, or in a new one. -/
def put (title : Text) (status : Status) (t : Table) : Table :=
  let row : Row := ⟨title, status, t.clock, lastRevision t.rows + 1⟩
  if t.rows.any fun r => same r.title title then
    { t with rows := t.rows.map fun r => if same r.title title then row else r }
  else { t with rows := t.rows ++ [row] }

def newestFirst (rows : List Row) : List Row := rows.mergeSort fun r r' => r'.revision ≤ r.revision

def all (t : Table) : List Row := newestFirst t.rows

def titles (status : Status) (t : Table) : List Text :=
  (newestFirst (t.rows.filter fun r => r.status == status)).map Row.title

def row? (title : Text) (t : Table) : Option Row := t.rows.find? fun r => same r.title title

/-- The row of a title, or the error that there is none. -/
def row (title : Text) (t : Table) : Except Error Row :=
  match t.row? title with
  | some r => .ok r
  | none => .error (.titleNotFound title)

def count (status : Status) (t : Table) : Nat := (t.rows.filter fun r => r.status == status).length

def total (t : Table) : Nat := t.count .wanted + t.count .seen + t.count .disliked

instance : Holdings Table where
  put := put
  titles := titles

end Table

/-! ## Opening and closing

A closed catalog refuses every request; opening it again finds the rows as they were. -/

namespace Catalog

def close (c : Catalog Table) : Catalog Table := { c with faults := Faults.closed }

def reopen (c : Catalog Table) : Catalog Table := { c with faults := Faults.none }

end Catalog

end WatchList
