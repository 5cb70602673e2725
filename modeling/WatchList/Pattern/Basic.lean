import WatchList.Text.Blank
import WatchList.Text.Fold
import WatchList.Text.Word
/-!
# Patterns

A pattern looks at one place of a text: it is given the character before the place and the text after it, and says how
many characters it takes there, if it fits.  The vocabulary needs few patterns, so there are few ways to build one:

* `Pattern.word table` takes a phrase of a table, in any casing, that starts and ends at the edge of a word; a space in a
  phrase stands for any blanks, one or more;
* `Pattern.one` takes a single character, `Pattern.blanks` a run of them, `Pattern.phrase` a phrase without regard to
  word edges;
* `Pattern.andThen`, `Pattern.orElse` and `Pattern.perhaps` put patterns together.

At any place at most one phrase of a table fits, since a phrase that fits ends at a word edge and no other phrase of the
table goes on from there.  So the order of a table does not matter.
-/
namespace WatchList

/-- How many characters of the text are taken at a place, given the character before it. -/
abbrev Pattern := Option Char → Text → Option Nat

namespace Pattern

def blankRun (t : Text) : Nat := (t.takeWhile isBlank).length

/-- How many characters of `t` the phrase `w` takes from the left end of `t`. -/
def reach : Text → Text → Option Nat
  | [], _ => some 0
  | a :: w, t =>
    if a = ' ' then
      match blankRun t with
      | 0 => none
      | n + 1 => (reach w (t.drop (n + 1))).map (n + 1 + ·)
    else match t with
      | [] => none
      | c :: t => if foldLetter c = a then (reach w t).map (1 + ·) else none

/-- The phrase `w` fits at the left end of `t` and ends at a word edge. -/
def wholeReach (t w : Text) : Option Nat :=
  (reach w t).filter fun n => !touchesWord (t.drop n).head?

/-- A phrase of the table, from word edge to word edge. -/
def word (table : List Text) : Pattern := fun before t =>
  if touchesWord before then none else table.findSome? (wholeReach t)

def phrase (w : Text) : Pattern := fun _ t => reach w t

def one (pick : Char → Bool) : Pattern := fun _ t =>
  match t with
  | [] => none
  | c :: _ => if pick c then some 1 else none

def blanks : Pattern := fun _ t =>
  match blankRun t with
  | 0 => none
  | n + 1 => some (n + 1)

/-- What `p` takes and, right after it, what `q` takes. -/
def andThen (p q : Pattern) : Pattern := fun before t =>
  (p before t).bind fun n => (q ((t.take n).getLast?.or before) (t.drop n)).map (n + ·)

/-- What `p` takes or, where it does not fit, what `q` takes. -/
def orElse (p q : Pattern) : Pattern := fun before t => (p before t).or (q before t)

/-- What `p` takes or, where it does not fit, nothing. -/
def perhaps (p : Pattern) : Pattern := orElse p fun _ _ => some 0

end Pattern

end WatchList
