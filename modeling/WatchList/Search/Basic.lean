import WatchList.Catalog.Basic
import WatchList.Search.Score
/-!
# Searching the catalog

A search goes through the wanted, the seen and the disliked titles, each in listing order, keeps those that match the
query and puts the best first.  Titles with one score stay in the order in which they were gone through.

A **searcher** asks a keeper for the titles and owns the board that they are scored on.  The board outlives a search: the
next one begins on what is left of it, also when a listing was refused on the way.
-/
namespace WatchList

/-- A title that matches, with its status and score. -/
structure Hit where
  title : Text
  status : Status
  score : Int
deriving DecidableEq, Repr

/-- A keeper of titles, and the board as the titles scored so far have left it. -/
structure Searcher (κ : Type) where
  keeper : κ
  board : Search.Board := #[]

namespace Search
variable {κ α : Type}

/-- The entries that match a query, with their scores, and the board that they leave; `board` is what earlier titles left. -/
def hitsFrom (query : Text) (board : Board) : List Entry → List Hit × Board
  | [] => ([], board)
  | e :: es =>
    let (score?, board) := score query e.title board
    let (hits, board) := hitsFrom query board es
    match score? with
    | some s => (⟨e.title, e.status, s⟩ :: hits, board)
    | none => (hits, board)

/-- Asks the keeper of a searcher. -/
def asking (w : Job κ α) : Job (Searcher κ) α := fun s =>
  let (answer, keeper) := w s.keeper
  (answer, { s with keeper })

/-- Scores entries on the board of a searcher. -/
def matching (query : Text) (es : List Entry) : Job (Searcher κ) (List Hit) := fun s =>
  let (hits, board) := hitsFrom query s.board es
  (.ok hits, { s with board })

theorem asking_eq (w : Job κ α) (s : Searcher κ) :
    asking w s = ((w s.keeper).1, ⟨(w s.keeper).2, s.board⟩) := rfl

theorem matching_eq (query : Text) (es : List Entry) (s : Searcher κ) : matching query es s =
    (.ok (hitsFrom query s.board es).1, ⟨s.keeper, (hitsFrom query s.board es).2⟩) := rfl

/-- The hits of some statuses.  The titles of one are scored before the next one is listed. -/
def gather [Keeper κ] (query : Text) : List Status → Job (Searcher κ) (List Hit)
  | [] => pure []
  | s :: ss => do
    let titles ← asking (Work.list s)
    let hits ← matching query (titles.map (⟨·, s⟩))
    return hits ++ (← gather query ss)

def rank (hits : List Hit) : List Hit := hits.mergeSort fun h h' => decide (h'.score ≤ h.score)

/-- The best `limit` titles for a query, over all statuses. -/
def search [Keeper κ] (query : Text) (limit : Nat) : Job (Searcher κ) (List Hit) := do
  return (rank (← gather query Status.all)).take limit

/-- The search of a searcher that is made for it and dropped behind it, as a command does. -/
def run [Keeper κ] (query : Text) (limit : Nat) : Job κ (List Hit) := fun keeper =>
  let (answer, s) := search query limit { keeper }
  (answer, s.keeper)

end Search
end WatchList
