import WatchList.Text.Basic
/-!
# Blank characters

A character is blank when it has the Unicode property White_Space.  No-break spaces and the line and paragraph
separators are blank; zero-width spaces and the information separators are not.

* `Text.trim` drops blanks at both ends;
* `Text.words` are the maximal runs without a blank;
* `Text.collapsed` puts the words one space apart: the one spelling of a text up to spacing.
-/
namespace WatchList

def blankRanges : List (Nat × Nat) :=
  [(0x9, 0xD), (0x20, 0x20), (0x85, 0x85), (0xA0, 0xA0), (0x1680, 0x1680), (0x2000, 0x200A), (0x2028, 0x2029),
   (0x202F, 0x202F), (0x205F, 0x205F), (0x3000, 0x3000)]

def isBlank (c : Char) : Bool := inRanges blankRanges c

namespace Text

def trimLeft (t : Text) : Text := t.dropWhile isBlank

def trimRight (t : Text) : Text := (t.reverse.dropWhile isBlank).reverse

def trim (t : Text) : Text := trimRight (trimLeft t)

/-- The maximal runs of characters that are not blank. -/
def words (t : Text) : List Text := (pieces isBlank t).filter fun w => !w.isEmpty

def collapsed (t : Text) : Text := joined [' '] (words t)

end Text

end WatchList
