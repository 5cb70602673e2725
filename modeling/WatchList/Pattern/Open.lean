import WatchList.Pattern.Scan
import WatchList.Quote
/-!
# Open hits

What stands in a closed quotation is a title and steers nothing.  So instructions are scanned as letters, and only a hit
that begins outside every quotation counts; such a hit is **open**.

* `Pattern.find` gives the first open hit with the letters before and after it;
* `Pattern.cut` cuts the letters at the open hits.
-/
namespace WatchList

structure Found where
  before : List Letter
  phrase : List Letter
  after : List Letter
deriving DecidableEq, Repr

namespace Found

/-- The same hit with more letters before it. -/
def behind (ls : List Letter) (f : Found) : Found := { f with before := ls ++ f.before }

/-- The last character of the hit: the one before the letters after it. -/
def lastChar (f : Found) : Option Char := f.phrase.getLast?.map Letter.char

def text (f : Found) : Text := f.phrase.map Letter.char

/-- The first open hit among tokens. -/
def ofTokens? : List (Token Letter) → Option Found
  | [] => none
  | .gap l :: ts => (ofTokens? ts).map (behind [l])
  | .hit l ls :: ts =>
    if l.quoted then (ofTokens? ts).map (behind (l :: ls))
    else some ⟨[], l :: ls, ts.flatMap Token.items⟩

theorem items_ofTokens? {ts : List (Token Letter)} {f : Found} (h : ofTokens? ts = some f) :
    f.before ++ f.phrase ++ f.after = ts.flatMap Token.items := by
  induction ts generalizing f with
  | nil => cases h
  | cons tok ts ih =>
    cases tok with
    | gap l =>
      obtain ⟨g, hg, rfl⟩ := Option.map_eq_some_iff.1 h
      simp [behind, Token.items, ← ih hg]
    | hit l ls =>
      unfold ofTokens? at h
      split at h
      · obtain ⟨g, hg, rfl⟩ := Option.map_eq_some_iff.1 h
        simp [behind, Token.items, ← ih hg]
      · cases h
        simp [Token.items]

end Found

namespace Pattern

/-- The first open hit in the letters, `before` being the character before them. -/
def find (p : Pattern) (before : Option Char) (ls : List Letter) : Option Found :=
  Found.ofTokens? (p.scan Letter.char before ls)

/-- The letters before an open hit, the hit and the letters after it make up the letters. -/
theorem items_find {p : Pattern} {before : Option Char} {ls : List Letter} {f : Found}
    (h : p.find before ls = some f) : f.before ++ f.phrase ++ f.after = ls := by
  rw [Found.items_ofTokens? h, items_scan]

def findAfter (p : Pattern) (f : Found) : Option Found := p.find f.lastChar f.after

def opensIn (p : Pattern) (ls : List Letter) : Bool := (p.find none ls).isSome

def onto (t : Text) : List Text → List Text
  | [] => [t]
  | w :: ws => (t ++ w) :: ws

/-- The texts between the open hits among tokens, empty ones included. -/
def cutTokens : List (Token Letter) → List Text
  | [] => [[]]
  | .gap l :: ts => onto [l.char] (cutTokens ts)
  | .hit l ls :: ts =>
    if l.quoted then onto ((l :: ls).map Letter.char) (cutTokens ts) else [] :: cutTokens ts

def cut (p : Pattern) (t : Text) : List Text := cutTokens (p.scan Letter.char none (Quote.letters t))

end Pattern

end WatchList
