import WatchList.Bulk
/-!
# One title at a time

Each tool takes one title, brings it into its normal form and writes it once.  A text that names no title is refused
before anything is written.
-/
namespace WatchList

/-- What came of adding to the wishlist: one title, or a list of so many. -/
inductive Added where
  | one (title : Text)
  | many (count : Nat)
deriving DecidableEq, Repr

namespace Library
variable {κ : Type} [Keeper κ]

/-- Writes the title that the text names; the result is its normal form. -/
def put (status : Status) (raw : Text) : Job κ Text :=
  let title := Title.normalize raw
  if title.isEmpty then throw .emptyTitle
  else do
    Work.write title status
    return title

/-- Puts a title on the wishlist.  A text with commas or line ends is a list of titles. -/
def add (raw : Text) : Job κ Added :=
  if raw.any Title.isSeparator then do
    return .many (← Bulk.add raw)
  else do
    return .one (← put .wanted raw)

def remove (raw : Text) : Job κ Text := put .disliked raw

def markSeen (raw : Text) : Job κ Text := put .seen raw

def markDisliked (raw : Text) : Job κ Text := put .disliked raw

def setStatus (raw word : Text) : Job κ (Text × Status) := do
  let title ← put (Status.ofWord word) raw
  return (title, Status.ofWord word)

/-- The titles of the status that a word is taken for: in normal form, each once. -/
def list (word : Text) : Job κ (List Text) := do
  let titles ← Work.list (Status.ofWord word)
  return distinctBy id (Title.ofAll titles)

end Library
end WatchList
