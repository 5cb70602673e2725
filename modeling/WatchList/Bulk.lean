import WatchList.Catalog.Basic
import WatchList.StatusWord
import WatchList.Title
/-!
# Lists of titles

Tools for a list that is already known to hold titles only: it is split at commas and line ends, and every title is
written in turn with one status.  The first write that is refused ends the work; the titles before it stay written.
-/
namespace WatchList
namespace Bulk
variable {κ : Type} [Keeper κ]

/-- Writes every title of the list with one status; the result is their number. -/
def put (status : Status) (titles : Text) : Job κ Nat := do
  Work.writeAll status (Title.ofList titles)
  return (Title.ofList titles).length

def add (titles : Text) : Job κ Nat := put .wanted titles

def remove (titles : Text) : Job κ Nat := put .disliked titles

def setStatus (titles word : Text) : Job κ (Nat × Status) := do
  let n ← put (Status.ofWord word) titles
  return (n, Status.ofWord word)

end Bulk
end WatchList
