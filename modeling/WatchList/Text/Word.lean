import WatchList.Text.WordTable
/-!
# Words and their edges

A phrase counts only as whole words, so the places that matter are the edges: between a word character and something
else.  ASCII digits, letters and the low line are word characters; beyond ASCII the table decides.
-/
namespace WatchList

def isWordChar (c : Char) : Bool :=
  if c.toNat < 128 then c.isAlphanum || c == '_'
  else wordBlocks.any fun b => b.1 ≤ c.toNat && c.toNat ≤ b.2.1 && inRanges b.2.2 c

/-- The character next to a place, if there is one, belongs to a word. -/
def touchesWord (next : Option Char) : Bool := next.any isWordChar

namespace Text

/-- The maximal runs of word characters. -/
def wordRuns (t : Text) : List Text := (pieces (fun c => !isWordChar c) t).filter fun w => !w.isEmpty

end Text

end WatchList
