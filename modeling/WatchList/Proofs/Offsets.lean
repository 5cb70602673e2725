import WatchList.Text.Basic
/-!
# Places by their byte offset

A place of a text, between two of its characters or at one of its ends, is found by the size of what stands before it.
Of two places the one with the smaller offset stands before the other (`Text.exists_between`), so no two places have the
same offset (`Text.eq_of_size`).

`Text.slice?` takes out what stands between two offsets.  It fails unless the offsets are those of two places, the first
of them not behind the second (`Text.slice?_eq_some_iff`, `Text.isSome_slice?_iff`).
-/
namespace WatchList

/-- A range of byte offsets: from `start` up to `stop`, which is not in it. -/
structure Range where
  start : Nat
  stop : Nat
deriving DecidableEq, Repr

namespace Text

theorem size_cons (c : Char) (t : Text) : size (c :: t) = c.utf8Size + size t := rfl

theorem size_cons_pos (c : Char) (t : Text) : 0 < size (c :: t) := Nat.add_pos_left c.utf8Size_pos _

theorem size_eq_zero_iff {t : Text} : size t = 0 ↔ t = [] := by
  cases t with
  | nil => simp [size]
  | cons c t => simp [Nat.ne_of_gt (size_cons_pos c t)]

/-! ## Places -/

/-- **The place with the smaller offset stands before the other.** -/
theorem exists_between {u v u' v' : Text} (h : u ++ v = u' ++ v') (hle : size u ≤ size u') :
    ∃ w, u' = u ++ w ∧ v = w ++ v' := by
  obtain ⟨s, rfl, hs⟩ | ⟨s, rfl, hs⟩ := List.append_eq_append_iff.1 h
  · exact ⟨s, rfl, hs⟩
  · rw [size_append] at hle
    obtain rfl : s = [] := size_eq_zero_iff.1 (by omega)
    exact ⟨[], by simp, hs.symm⟩

/-- A place is found by its offset. -/
theorem eq_of_size {u v u' v' : Text} (h : u ++ v = u' ++ v') (hsize : size u = size u') : u = u' ∧ v = v' := by
  obtain ⟨w, rfl, hv⟩ := exists_between h (Nat.le_of_eq hsize)
  rw [size_append] at hsize
  obtain rfl : w = [] := size_eq_zero_iff.1 (by omega)
  exact ⟨(List.append_nil u).symm, hv⟩

/-- The offset is that of a place of the text. -/
def IsBoundary (t : Text) (n : Nat) : Prop := ∃ u v, t = u ++ v ∧ size u = n

theorem isBoundary_append (u v : Text) : IsBoundary (u ++ v) (size u) := ⟨u, v, rfl, rfl⟩

theorem IsBoundary.le {t : Text} {n : Nat} (h : IsBoundary t n) : n ≤ size t := by
  obtain ⟨u, v, rfl, rfl⟩ := h
  rw [size_append]
  omega

/-- Behind a place the next one is behind a character. -/
theorem IsBoundary.next_le {u v : Text} {c : Char} {n : Nat} (h : IsBoundary (u ++ c :: v) n) (hlt : size u < n) :
    size u + size [c] ≤ n := by
  obtain ⟨u', v', heq, rfl⟩ := h
  obtain ⟨w, rfl, hw⟩ := exists_between heq (Nat.le_of_lt hlt)
  cases w with
  | nil => simp at hlt
  | cons d w =>
    obtain ⟨rfl, -⟩ := List.cons.inj hw
    simp [size]

/-! ## Slices -/

/-- The two halves of a text at a byte offset, if the offset is that of a place. -/
def splitAt? : Nat → Text → Option (Text × Text)
  | 0, t => some ([], t)
  | _ + 1, [] => none
  | n + 1, c :: t =>
    if c.utf8Size ≤ n + 1 then (splitAt? (n + 1 - c.utf8Size) t).map fun (u, v) => (c :: u, v) else none

theorem splitAt?_size (u v : Text) : splitAt? (size u) (u ++ v) = some (u, v) := by
  induction u with
  | nil => simp [size, splitAt?]
  | cons c u ih =>
    obtain ⟨n, hn⟩ := Nat.exists_eq_succ_of_ne_zero (Nat.ne_of_gt (size_cons_pos c u))
    have hsize := size_cons c u
    rw [hn, List.cons_append, splitAt?, if_pos (by omega), show n + 1 - c.utf8Size = size u by omega, ih]
    rfl

theorem splitAt?_eq_some_iff {n : Nat} {t u v : Text} : splitAt? n t = some (u, v) ↔ t = u ++ v ∧ size u = n := by
  constructor
  · fun_induction splitAt? n t generalizing u v with
    | case1 t =>
      rintro ⟨⟩
      exact ⟨rfl, rfl⟩
    | case2 => simp
    | case3 n c t hle ih =>
      intro h
      obtain ⟨⟨u', v'⟩, hsplit, heq⟩ := Option.map_eq_some_iff.1 h
      obtain ⟨rfl, rfl⟩ := Prod.mk.inj heq
      obtain ⟨rfl, hsize⟩ := ih hsplit
      exact ⟨rfl, by rw [size_cons]; omega⟩
    | case4 => simp
  · rintro ⟨rfl, rfl⟩
    exact splitAt?_size u v

/-- What stands in a range of a text, if its ends are places of the text and in order. -/
def slice? (t : Text) (r : Range) : Option Text :=
  (splitAt? r.stop t).bind fun (u, _) => (splitAt? r.start u).map Prod.snd

/-- **What a slice is.** -/
theorem slice?_eq_some_iff {t w : Text} {r : Range} :
    slice? t r = some w ↔ ∃ x y, t = x ++ (w ++ y) ∧ r = ⟨size x, size (x ++ w)⟩ := by
  unfold slice?
  constructor
  · intro h
    obtain ⟨⟨u, y⟩, hstop, h⟩ := Option.bind_eq_some_iff.1 h
    obtain ⟨⟨x, w'⟩, hstart, rfl⟩ := Option.map_eq_some_iff.1 h
    obtain ⟨rfl, hto⟩ := splitAt?_eq_some_iff.1 hstop
    obtain ⟨rfl, hfrom⟩ := splitAt?_eq_some_iff.1 hstart
    refine ⟨x, y, List.append_assoc _ _ _, ?_⟩
    simp only
    rw [hfrom, hto]
  · rintro ⟨x, y, rfl, rfl⟩
    simp only
    rw [← List.append_assoc, splitAt?_size, Option.bind_some, splitAt?_size, Option.map_some]

end Text

/-- The range lies in the text, with both ends at places of it, the first of them not behind the second. -/
structure Range.Fits (r : Range) (t : Text) : Prop where
  ordered : r.start ≤ r.stop
  within : r.stop ≤ t.size
  starts : t.IsBoundary r.start
  stops : t.IsBoundary r.stop

/-- **A text can be sliced exactly where a range fits.** -/
theorem Text.isSome_slice?_iff {t : Text} {r : Range} : (slice? t r).isSome = true ↔ r.Fits t := by
  rw [Option.isSome_iff_exists]
  constructor
  · rintro ⟨w, hw⟩
    obtain ⟨x, y, rfl, rfl⟩ := slice?_eq_some_iff.1 hw
    refine ⟨?_, ?_, isBoundary_append x _, ?_⟩
    · simp
    · simp
    · rw [← List.append_assoc]
      exact isBoundary_append (x ++ w) y
  · rintro ⟨hordered, -, ⟨x, v, rfl, hx⟩, ⟨u, y, hu, hstop⟩⟩
    obtain ⟨w, rfl, rfl⟩ := exists_between hu (by omega)
    exact ⟨w, slice?_eq_some_iff.2 ⟨x, y, rfl, by rw [hx, hstop]⟩⟩

end WatchList
