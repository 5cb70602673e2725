import WatchList.Text.Ascii
/-!
# Scores of a fuzzy search

A title matches a query when the characters of the query occur in it in order, the case of ASCII letters aside.  A match
is scored by local alignment: a character in place earns points, more at the start of a word, a run of matching
characters keeps its bonus, and a gap costs points.

The alignment is filled row by row, one row for each character of the query, and only two rows are kept.  They lie one
after the other in a flat **board**, which lives as long as the matcher: it serves all titles that are ever scored with it,
in one search and in the next.  The board is cut or extended to the size that a title needs and is not cleared, so the
bonus of a cell that is not written for a title is what an earlier title left there.  Scores depend on that, so the board
is passed on from title to title.
-/
namespace WatchList
namespace Search

/-! ## Characters and their bonus -/

/-- What a character is to the eye that looks for the starts of words. -/
inductive CharKind where
  | empty
  | hardSeparator
  | softSeparator
  | number
  | upper
  | lower
deriving DecidableEq, Repr

def charKind (c : Char) : CharKind :=
  if c = '\x00' then .empty
  else if [' ', '/', '\\', '|', '(', ')', '[', ']', '{', '}'].contains c then .hardSeparator
  else if inRanges [(0x21, 0x27), (0x2A, 0x2E), (0x3A, 0x40), (0x5E, 0x60), (0x7E, 0x7E)] c then .softSeparator
  else if c.isDigit then .number
  else if c.isUpper then .upper
  else .lower

def bonusBetween (last next : CharKind) : Int :=
  match last, next with
  | .empty, _ => 8
  | .hardSeparator, _ => 8
  | .softSeparator, _ => 7
  | .lower, .upper => 6
  | .number, .upper => 6
  | _, _ => 0

def bonusesAfter (last : CharKind) : Text → List Int
  | [] => []
  | c :: t => bonusBetween last (charKind c) :: bonusesAfter (charKind c) t

/-- The bonuses of the characters of a title; the first one counts twice. -/
def bonuses (title : Text) : List Int :=
  match bonusesAfter .empty title with
  | [] => []
  | b :: bs => 2 * b :: bs

/-! ## Matches -/

def sameLetter (a b : Char) : Bool := lowerAscii a == lowerAscii b

/-- Where the characters of the query stand in a title whose first character has index `start`, each taken as early as
it can be; nothing if the title does not match. -/
def places (start : Nat) : Text → Text → Option (List Nat)
  | [], _ => some []
  | _ :: _, [] => none
  | q :: qs, c :: t =>
    if sameLetter q c then (places (start + 1) qs t).map (start :: ·) else places (start + 1) (q :: qs) t

/-! ## The board -/

/-- A cell of the alignment: the best score with the character in place, the best score after a gap, and the bonus that
a run carries on. -/
structure Cell where
  matched : Int
  passed : Int
  bonus : Int
deriving DecidableEq, Repr

def impossible : Int := -32768

def Cell.blank : Cell := ⟨impossible, impossible, 0⟩

/-- The cells of all rows, row after row. -/
abbrev Board := Array Cell

namespace Board

def cell (b : Board) (i : Nat) : Cell := b.getD i .blank

def put (b : Board) (i : Nat) (c : Cell) : Board := b.setIfInBounds i c

/-- The board with `n` cells: cut off, or extended with blank cells. -/
def resize (n : Nat) (b : Board) : Board := b.take n ++ Array.replicate (n - b.size) Cell.blank

/-- The board with one cell put at all indices below `n`. -/
def putBelow (b : Board) (c : Cell) : Nat → Board
  | 0 => b
  | n + 1 => (putBelow b c n).put n c

/-- The board made ready for a title with `columns - 1` characters, in which the query begins at index `first`. -/
def prepare (columns first : Nat) (b : Board) : Board :=
  (((b.resize (2 * columns)).put (columns + first) .blank).putBelow ⟨impossible, -1, 0⟩ columns)

/-- Fills the cell behind the title's character `c`, which has index `j` and bonus `bonus`, in the row that starts at
`row` and belongs to the query's character `q`; the row before it starts at `last`. -/
def fill (last row : Nat) (q : Char) (j : Nat) (c : Char) (bonus : Int) (b : Board) : Board :=
  let left := b.cell (row + j)
  let diagonal := b.cell (last + j)
  let current := b.cell (row + j + 1)
  let passed := max (left.matched - 4) (left.passed - 1)
  if sameLetter q c then
    let carried := max (max left.bonus bonus) 4
    let points : Int := if q = c then 16 else 14
    let matched := max (diagonal.matched + carried) (diagonal.passed + bonus) + points
    (b.put (row + j) { left with bonus := carried }).put (row + j + 1) ⟨matched, passed, current.bonus⟩
  else b.put (row + j + 1) ⟨impossible, passed, 0⟩

def fillRow (last row : Nat) (q : Char) (j : Nat) : List (Char × Int) → Board → Board
  | [], b => b
  | (c, bonus) :: rest, b => fillRow last row q (j + 1) rest (fill last row q j c bonus b)

/-- Fills the rows for the characters of the query, each from its place in the title on.  The rows alternate: the row of
the first character is the second of the board. -/
def fillRows (columns : Nat) (title : List (Char × Int)) (second : Bool) : List (Char × Nat) → Board → Board
  | [], b => b
  | (q, j) :: rest, b =>
    let last := if second then 0 else columns
    let row := if second then columns else 0
    fillRows columns title (!second) rest (fillRow last row q j (title.drop j) b)

/-- The best score with the last character in place: the greatest of `n` cells from an index on. -/
def best (b : Board) (start n : Nat) : Int :=
  ((List.range n).map fun k => (b.cell (start + k)).matched).foldl max impossible

end Board

/-! ## Scores -/

/-- The score of a title for a query, if it matches, and the board for the next title. -/
def score (query title : Text) (b : Board) : Option Int × Board :=
  match places 0 query title with
  | none => (none, b)
  | some [] => (some 0, b)
  | some (first :: rest) =>
    let columns := title.length + 1
    let b := (b.prepare columns first).fillRows columns (title.zip (bonuses title)) true (query.zip (first :: rest))
    let lastRow := if query.length % 2 = 0 then 0 else columns
    let lastPlace := rest.getLast?.getD first
    (some (b.best (lastRow + lastPlace) (columns - lastPlace)), b)

end Search
end WatchList
