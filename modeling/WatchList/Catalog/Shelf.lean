import WatchList.Catalog.Basic
/-!
# The catalog in memory

A shelf is the list of its entries in the order of their last writes.  Two titles are one when their lower-case forms
agree: a write takes the entry of the title off the shelf, if there is one, and puts the new one at the end.
-/
namespace WatchList

/-- Entries, the least recently written first. -/
structure Shelf where
  entries : List Entry := []
deriving DecidableEq, Repr

namespace Shelf

/-- The two titles are one, up to casing. -/
def same (s t : Text) : Bool := s.lowercase == t.lowercase

def put (title : Text) (status : Status) (s : Shelf) : Shelf :=
  ⟨(s.entries.filter fun e => !same e.title title) ++ [⟨title, status⟩]⟩

def titles (status : Status) (s : Shelf) : List Text :=
  (s.entries.reverse.filter fun e => e.status == status).map Entry.title

def statusOf? (title : Text) (s : Shelf) : Option Status :=
  (s.entries.find? fun e => same e.title title).map Entry.status

def length (s : Shelf) : Nat := s.entries.length

def isEmpty (s : Shelf) : Bool := s.length == 0

instance : Holdings Shelf where
  put := put
  titles := titles

end Shelf

end WatchList
