import WatchList.Pattern.Basic
/-!
# Scanning a text for a pattern

A scan goes through a text from left to right and cuts it into tokens: hits, where the pattern fits, and single
characters between them.  After a hit the scan goes on behind it, so hits never overlap; the pattern still sees the
character before each place.  The scan works on any list whose members carry a character, so that a text can be scanned
together with what is known of each of its characters.

* `Pattern.scan` gives the tokens, `Token.items` their members: nothing is lost;
* `Pattern.occurrences` are the hits of a plain text with their byte offsets;
* `Pattern.replaceAll` puts one text in the place of every hit.
-/
namespace WatchList

/-- A piece of a scanned list: a member between hits, or a hit with its first member and the others. -/
inductive Token (α : Type) where
  | gap (a : α)
  | hit (a : α) (as : List α)
deriving DecidableEq, Repr

namespace Token

def items : Token α → List α
  | .gap a => [a]
  | .hit a as => a :: as

end Token

/-- A hit in a text: the byte offsets of its two ends, and what was hit. -/
structure Occurrence where
  start : Nat
  stop : Nat
  text : Text
deriving DecidableEq, Repr

namespace Pattern

/-- How many members of a list the pattern takes at its left end, none if it does not fit. -/
def taken (p : Pattern) (char : α → Char) (before : Option Char) (as : List α) : Nat :=
  (p before (as.map char)).getD 0

/-- The tokens of a list for a pattern, `before` being the character before the list. -/
def scan (p : Pattern) (char : α → Char) (before : Option Char) : List α → List (Token α)
  | [] => []
  | a :: as =>
    match taken p char before (a :: as) with
    | n + 1 => .hit a (as.take n) :: scan p char (some (char ((as.take n).getLast?.getD a))) (as.drop n)
    | 0 => .gap a :: scan p char (some (char a)) as
termination_by as => as.length
decreasing_by all_goals simp; try omega

theorem items_scan (p : Pattern) (char : α → Char) (before : Option Char) (as : List α) :
    (p.scan char before as).flatMap Token.items = as := by
  fun_induction scan p char before as with
  | case1 => rfl
  | case2 before a as n h ih =>
    rw [List.flatMap_cons, ih]
    exact congrArg (a :: ·) (List.take_append_drop n as)
  | case3 before a as h ih => rw [List.flatMap_cons, ih]; rfl

def tokens (p : Pattern) (t : Text) : List (Token Char) := scan p id none t

/-- The hits among the tokens, which start at byte `start`. -/
def hitsFrom (start : Nat) : List (Token Char) → List Occurrence
  | [] => []
  | .gap c :: ts => hitsFrom (start + c.utf8Size) ts
  | .hit c cs :: ts =>
    ⟨start, start + Text.size (c :: cs), c :: cs⟩ :: hitsFrom (start + Text.size (c :: cs)) ts

def occurrences (p : Pattern) (t : Text) : List Occurrence := hitsFrom 0 (p.tokens t)

def occursIn (p : Pattern) (t : Text) : Bool := !(p.occurrences t).isEmpty

/-- The text with `r` in the place of every hit. -/
def replaceAll (p : Pattern) (r : Text) (t : Text) : Text :=
  (p.tokens t).flatMap fun
    | .gap c => [c]
    | .hit _ _ => r

end Pattern

end WatchList
