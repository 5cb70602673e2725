import WatchList.Text.Basic
/-!
# ASCII case

The coarse comparison of texts: the letters A to Z and a to z count as equal in pairs, every other character only
equals itself.
-/
namespace WatchList

def lowerAscii (c : Char) : Char :=
  if 'A' ≤ c ∧ c ≤ 'Z' then Char.ofNat (c.toNat + 32) else c

def upperAscii (c : Char) : Char :=
  if 'a' ≤ c ∧ c ≤ 'z' then Char.ofNat (c.toNat - 32) else c

namespace Text

def asciiLower (t : Text) : Text := t.map lowerAscii

def asciiUpper (t : Text) : Text := t.map upperAscii

/-- The two texts differ at most in the case of ASCII letters. -/
def sameAscii (s t : Text) : Bool := asciiLower s == asciiLower t

end Text

end WatchList
