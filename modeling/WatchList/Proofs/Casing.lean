import WatchList.Text.Ascii
import WatchList.Text.Lowercase
/-!
# The case of ASCII letters

Lower-casing does not see the case of ASCII letters: neither in the letters themselves, nor where it looks at a
letter's neighbours to find the form of a sigma (`lowercase_asciiLower`).  So titles that differ in the case of ASCII
letters only are one title for every catalog (`lowercase_eq_of_asciiLower`).
-/
namespace WatchList

theorem lowerAscii_of_le {c : Char} (h : 128 ≤ c.toNat) : lowerAscii c = c := by
  refine if_neg fun hc => ?_
  have hz : c.toNat ≤ 'Z'.toNat := hc.2
  have hlast : 'Z'.toNat = 90 := rfl
  omega

/-- What is the same for both cases of each ASCII letter is the same for the two cases of any character. -/
theorem eq_lowerAscii {α : Type} (f : Char → α) (h : ∀ n < 128, f (lowerAscii (Char.ofNat n)) = f (Char.ofNat n))
    (c : Char) : f (lowerAscii c) = f c := by
  rcases Nat.lt_or_ge c.toNat 128 with hc | hc
  · have hn := h c.toNat hc
    rwa [Char.ofNat_toNat] at hn
  · rw [lowerAscii_of_le hc]

theorem upperAscii_of_le {c : Char} (h : 128 ≤ c.toNat) : upperAscii c = c := by
  refine if_neg fun hc => ?_
  have hz : c.toNat ≤ 'z'.toNat := hc.2
  have hlast : 'z'.toNat = 122 := rfl
  omega

theorem eq_upperAscii {α : Type} (f : Char → α) (h : ∀ n < 128, f (upperAscii (Char.ofNat n)) = f (Char.ofNat n))
    (c : Char) : f (upperAscii c) = f c := by
  rcases Nat.lt_or_ge c.toNat 128 with hc | hc
  · have hn := h c.toNat hc
    rwa [Char.ofNat_toNat] at hn
  · rw [upperAscii_of_le hc]

namespace Text

theorem startsCased_asciiLower (t : Text) : startsCased (asciiLower t) = startsCased t := by
  induction t with
  | nil => rfl
  | cons c t ih =>
    have hcased := eq_lowerAscii isCased (by decide +kernel) c
    have hignored := eq_lowerAscii isCaseIgnorable (by decide +kernel) c
    unfold startsCased asciiLower at *
    rw [List.map_cons, List.dropWhile_cons, List.dropWhile_cons, hignored]
    split
    · exact ih
    · simpa using hcased

theorem lowerBetween_asciiLower (before : Text) (c : Char) (after : Text) :
    lowerBetween (asciiLower before) (lowerAscii c) (asciiLower after) = lowerBetween before c after := by
  have hsmall := eq_lowerAscii smallLetter (by decide +kernel) c
  have hsigma := decide_eq_decide.1 (eq_lowerAscii (fun c => decide (c = 'Σ')) (by decide +kernel) c)
  have hdotted := decide_eq_decide.1 (eq_lowerAscii (fun c => decide (c = 'İ')) (by decide +kernel) c)
  unfold lowerBetween
  rw [startsCased_asciiLower, startsCased_asciiLower, hsmall]
  simp only [hsigma, hdotted]

theorem lowerAfter_asciiLower (before t : Text) :
    lowerAfter (asciiLower before) (asciiLower t) = lowerAfter before t := by
  induction t generalizing before with
  | nil => rfl
  | cons c t ih =>
    have hbefore : lowerAscii c :: asciiLower before = asciiLower (c :: before) := rfl
    have hcons : asciiLower (c :: t) = lowerAscii c :: asciiLower t := rfl
    rw [hcons, lowerAfter, lowerAfter, lowerBetween_asciiLower, hbefore, ih]

/-- **The small form of a text does not depend on the case of its ASCII letters.** -/
theorem lowercase_asciiLower (t : Text) : lowercase (asciiLower t) = lowercase t := lowerAfter_asciiLower [] t

theorem lowercase_eq_of_asciiLower {s t : Text} (h : asciiLower s = asciiLower t) : lowercase s = lowercase t := by
  rw [← lowercase_asciiLower s, h, lowercase_asciiLower]

theorem lowercase_asciiUpper (t : Text) : lowercase (asciiUpper t) = lowercase t := by
  refine lowercase_eq_of_asciiLower ?_
  rw [asciiLower, asciiUpper, List.map_map, asciiLower]
  exact List.map_congr_left fun c _ => eq_upperAscii lowerAscii (by decide +kernel) c

theorem size_asciiLower (t : Text) : size (asciiLower t) = size t := by
  induction t with
  | nil => rfl
  | cons c t ih =>
    have hcons : asciiLower (c :: t) = lowerAscii c :: asciiLower t := rfl
    rw [hcons, size, size, ih, eq_lowerAscii Char.utf8Size (by decide +kernel) c]

end Text
end WatchList
