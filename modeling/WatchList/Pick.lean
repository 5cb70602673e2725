import WatchList.Catalog.Basic
import WatchList.Title
/-!
# What to watch next

A title is picked from the wishlist: the most recent one, or any of them.  Chance enters as a number, so that picking is
a function.
-/
namespace WatchList

inductive PickStrategy where
  | first
  | random
deriving DecidableEq, Repr

namespace PickStrategy

/-- The strategy a word stands for: first for *first* in any casing, and random for everything else. -/
def ofWord (raw : Text) : PickStrategy := if raw.trim.sameAscii "first".toList then .first else .random

def code : PickStrategy → Text
  | .first => "first".toList
  | .random => "random".toList

def ofCode? (raw : Text) : Option PickStrategy := [PickStrategy.first, .random].find? fun s => s.code == raw

end PickStrategy

namespace Pick
variable {κ : Type} [Keeper κ]

/-- The member that a strategy picks; for a random pick `chance` says which. -/
def choose (strategy : PickStrategy) (chance : Nat) (titles : List Text) : Option Text :=
  match strategy with
  | .first => titles.head?
  | .random => titles[chance % titles.length]?

def next (strategy : PickStrategy) (chance : Nat) : Job κ (Option Text) := do
  let titles ← Work.list .wanted
  return choose strategy chance (Title.ofAll titles)

end Pick
end WatchList
