import WatchList.Catalog.Basic
import WatchList.StatusWord
import WatchList.Title
/-!
# Upkeep of the catalog

Pruning entries that name no title, renaming, sorted listings and counts.  All of it goes through the two requests of
`Keeper`.
-/
namespace WatchList

inductive SortOrder where
  | ascending
  | descending
deriving DecidableEq, Repr

def SortOrder.ofWord (raw : Text) : SortOrder :=
  if raw.trim.sameAscii "desc".toList then .descending else .ascending

structure Counts where
  wanted : Nat
  seen : Nat
  disliked : Nat
deriving DecidableEq, Repr

namespace Counts

def total (c : Counts) : Nat := c.wanted + c.seen + c.disliked

def render (c : Counts) : Text :=
  "total=".toList ++ Text.ofNat c.total ++ " | wanted=".toList ++ Text.ofNat c.wanted ++ " | seen=".toList ++
    Text.ofNat c.seen ++ " | disliked=".toList ++ Text.ofNat c.disliked

end Counts

namespace Upkeep
variable {κ : Type} [Keeper κ]

/-- Marks as disliked the entries of a status that name no title; the result is their number.  Entries that are already
disliked stay as they are. -/
def prune (word : Text) : Job κ Nat := do
  let titles ← Work.list (Status.ofWord word)
  let blank := if Status.ofWord word = .disliked then [] else titles.filter fun t => (Title.normalize t).isEmpty
  Work.writeAll .disliked blank
  return blank.length

/-- The first of the statuses under which a title with the key is listed. -/
def statusUnder (key : Text) : List Status → Job κ (Option Status)
  | [] => pure none
  | s :: ss => do
    let titles ← Work.list s
    if titles.any fun t => (Title.normalize t).lowercase == key then return some s
    else statusUnder key ss

def findStatus (raw : Text) : Job κ (Option Status) :=
  statusUnder (Title.normalize raw).lowercase Status.all

/-- Gives a title a new name.  The new title takes the status of the old one, or is wanted if the old one is unknown, and
the old title becomes disliked.  Two names that differ only in casing are one entry, which is respelled. -/
def rename (old new : Text) : Job κ Status :=
  let old := Title.normalize old
  let new := Title.normalize new
  if old.isEmpty || new.isEmpty then throw .emptyTitle
  else do
    let status := (← findStatus old).getD .wanted
    Work.write new status
    if old.lowercase != new.lowercase then Work.write old .disliked
    return status

/-- The titles of a status in the order of their lower-case forms; titles with one form stay as they are listed. -/
def sorted (word : Text) (order : SortOrder) : Job κ (List Text) := do
  let titles ← Work.list (Status.ofWord word)
  let ascending := (Title.ofAll titles).mergeSort fun s t => s.lowercase.notAfter t.lowercase
  return match order with
    | .ascending => ascending
    | .descending => ascending.reverse

def counts : Job κ Counts := do
  let wanted ← Work.list .wanted
  let seen ← Work.list .seen
  let disliked ← Work.list .disliked
  return ⟨wanted.length, seen.length, disliked.length⟩

end Upkeep
end WatchList
