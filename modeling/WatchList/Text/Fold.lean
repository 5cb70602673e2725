import WatchList.Text.Basic
/-!
# Letters up to case

Phrases of the vocabulary are written in small letters and matched against any casing: a character stands for a
small letter when simple case folding takes it there.  The vocabulary uses letters of Latin-1 only, so folding covers
those, together with the long s and the kelvin sign, which fold to plain letters.  The dotted capital I and the dotless
small i fold to no letter but themselves.
-/
namespace WatchList

/-- The small letter that `c` folds to, if it is one of the vocabulary's script; otherwise `c`. -/
def foldLetter (c : Char) : Char :=
  if c = 'ſ' then 's'
  else if c = '\u212A' then 'k'
  else if 'A' ≤ c ∧ c ≤ 'Z' then Char.ofNat (c.toNat + 32)
  else if 'À' ≤ c ∧ c ≤ 'Þ' ∧ c ≠ '×' then Char.ofNat (c.toNat + 32)
  else c

/-- Beyond Latin-1 only the long s and the kelvin sign fold. -/
theorem foldLetter_of_ge {c : Char} (h : 256 ≤ c.toNat) (hlong : c ≠ 'ſ') (hkelvin : c ≠ '\u212A') :
    foldLetter c = c := by
  have hascii : ¬ ('A' ≤ c ∧ c ≤ 'Z') := by
    rintro ⟨-, hz⟩
    have hle : c.toNat ≤ 'Z'.toNat := hz
    have hlast : 'Z'.toNat = 90 := rfl
    omega
  have hlatin : ¬ ('À' ≤ c ∧ c ≤ 'Þ' ∧ c ≠ '×') := by
    rintro ⟨-, hthorn, -⟩
    have hle : c.toNat ≤ 'Þ'.toNat := hthorn
    have hlast : 'Þ'.toNat = 222 := rfl
    omega
  rw [foldLetter, if_neg hlong, if_neg hkelvin, if_neg hascii, if_neg hlatin]

end WatchList
