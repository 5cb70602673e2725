/-!
# Texts

Everything a user types, and everything a catalog holds, is a **text**: the list of its characters.  Texts become
strings only where the program meets the world, so every rule below is a rule about lists.

* `Text.size` measures a text in UTF-8 bytes, the unit in which positions are reported;
* `Text.notAfter` orders texts by their code points;
* `Text.pieces` cuts a text, or any list, at the items a predicate picks and keeps empty pieces; `Text.joined` is its
  inverse for one separator;
* `Text.holds` asks whether one text stands somewhere inside another.
-/
namespace WatchList

abbrev Text := List Char

namespace Text

/-! ## Size -/

/-- The number of bytes of a text in UTF-8. -/
def size : Text → Nat
  | [] => 0
  | c :: t => c.utf8Size + size t

@[simp] theorem size_append (s t : Text) : size (s ++ t) = size s + size t := by
  induction s with
  | nil => simp [size]
  | cons c s ih => simp [size, ih, Nat.add_assoc]

/-! ## Order -/

/-- Whether `s` comes before `t`, or is `t`, in the order of their code points. -/
def notAfter : Text → Text → Bool
  | [], _ => true
  | _ :: _, [] => false
  | c :: s, d :: t => c.toNat < d.toNat || (c == d && notAfter s t)

/-! ## Cutting and joining -/

/-- The pieces between the items that `cut` picks, empty ones included: one more than there are cuts. -/
def pieces {α : Type} (cut : α → Bool) : List α → List (List α)
  | [] => [[]]
  | c :: t =>
    if cut c then [] :: pieces cut t
    else match pieces cut t with
      | [] => [[c]]
      | w :: ws => (c :: w) :: ws

def joined (sep : Text) : List Text → Text
  | [] => []
  | [w] => w
  | w :: ws => w ++ sep ++ joined sep ws

theorem pieces_ne_nil {α : Type} (cut : α → Bool) (t : List α) : pieces cut t ≠ [] := by
  cases t with
  | nil => simp [pieces]
  | cons c t =>
    unfold pieces
    split
    · simp
    · split <;> simp

theorem joined_pieces (c : Char) (t : Text) : joined [c] (pieces (· == c) t) = t := by
  induction t with
  | nil => rfl
  | cons d t ih =>
    obtain ⟨w, ws, hw⟩ := List.exists_cons_of_ne_nil (pieces_ne_nil (· == c) t)
    unfold pieces
    rw [hw] at ih ⊢
    split
    · rename_i h
      obtain rfl : d = c := by simpa using h
      simpa [joined] using ih
    · cases ws <;> simpa [joined] using ih

def holds (part : Text) : Text → Bool
  | [] => part.isEmpty
  | c :: t => part.isPrefixOf (c :: t) || holds part t

/-! ## Numbers as text -/

def ofNat (n : Nat) : Text := Nat.toDigits 10 n

/-- `t` moved to the right edge of a field at least `width` characters wide. -/
def padLeft (width : Nat) (t : Text) : Text := List.replicate (width - t.length) ' ' ++ t

end Text

/-! ## Ranges of characters

A class of characters is given as closed ranges of code points, in rising order. -/

/-- The code point of `c` lies in one of the closed ranges. -/
def inRanges (ranges : List (Nat × Nat)) (c : Char) : Bool :=
  ranges.any fun r => r.1 ≤ c.toNat && c.toNat ≤ r.2

end WatchList
