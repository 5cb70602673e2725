import WatchList.Text.Ascii
import WatchList.Text.CaseTable
/-!
# Small letters

`Text.lowercase` is the full lower-case form of a text: every letter becomes its small form, except that

* a capital sigma that ends a word becomes the final small sigma, and
* the dotted capital I becomes a small i followed by a combining dot.

A sigma ends a word when a cased letter comes before it and none comes after it, characters that case ignores
(apostrophes, marks) being skipped on both sides.  Two titles are one title when their lower-case forms agree.
-/
namespace WatchList

def smallLetter (c : Char) : Char :=
  if c.toNat < 128 then lowerAscii c
  else match smallLetterRuns.find? fun r => r.1 ≤ c.toNat && c.toNat ≤ r.2.1 && (c.toNat - r.1) % r.2.2.1 == 0 with
    | some r => Char.ofNat (c.toNat + r.2.2.2).toNat
    | none => c

def isCased (c : Char) : Bool :=
  if c.toNat < 128 then c.isAlpha else inRanges casedRanges c

/-- A character that is skipped when the case of a neighbour is looked for. -/
def isCaseIgnorable (c : Char) : Bool :=
  if c.toNat < 128 then c == '\'' || c == '.' || c == ':' || c == '^' || c == '\x60'
  else inRanges caseIgnorableRanges c

namespace Text

/-- The first character that case does not ignore is a cased letter. -/
def startsCased (t : Text) : Bool := (t.dropWhile isCaseIgnorable).head?.any isCased

/-- The lower-case form of `c` between the characters `before` it, nearest first, and those `after` it. -/
def lowerBetween (before : Text) (c : Char) (after : Text) : Text :=
  if c = 'Σ' then [if startsCased before && !startsCased after then 'ς' else 'σ']
  else if c = 'İ' then ['i', '\u0307']
  else [smallLetter c]

def lowerAfter (before : Text) : Text → Text
  | [] => []
  | c :: t => lowerBetween before c t ++ lowerAfter (c :: before) t

def lowercase (t : Text) : Text := lowerAfter [] t

end Text

end WatchList
