import Mathlib.Data.List.Zip
import Mathlib.Logic.Function.Basic
import WatchList.Search.Score
/-!
# The board as two rows

The alignment of a title is filled on a flat board, but it only ever looks at two rows of it.  Here the filling is told
of two functions from columns to cells, and `score_eq_rows` says that the board does just that.  What an earlier title
left on the board comes in at one place: as the second row that the filling starts with.
-/
namespace WatchList
namespace Search

/-- The cells of a row, by column. -/
abbrev Cells := Nat → Cell

namespace Cells

/-- What `Board.fill` does, on the row that it fills. -/
def fill (last : Cells) (q : Char) (j : Nat) (c : Char) (bonus : Int) (row : Cells) : Cells :=
  let passed := max ((row j).matched - 4) ((row j).passed - 1)
  if sameLetter q c then
    let carried := max (max (row j).bonus bonus) 4
    let points : Int := if q = c then 16 else 14
    let matched := max ((last j).matched + carried) ((last j).passed + bonus) + points
    Function.update (Function.update row j { row j with bonus := carried }) (j + 1)
      ⟨matched, passed, (row (j + 1)).bonus⟩
  else Function.update row (j + 1) ⟨impossible, passed, 0⟩

def fillFrom (last : Cells) (q : Char) (j : Nat) : List (Char × Int) → Cells → Cells
  | [], row => row
  | (c, bonus) :: rest, row => fillFrom last q (j + 1) rest (fill last q j c bonus row)

/-- The row filled last: `row` is filled next, from `last`, and then the two change places. -/
def fillAll (title : List (Char × Int)) (last row : Cells) : List (Char × Nat) → Cells
  | [] => last
  | (q, j) :: rest => fillAll title (fillFrom last q j (title.drop j) row) last rest

def best (row : Cells) (start n : Nat) : Int :=
  ((List.range n).map fun k => (row (start + k)).matched).foldl max impossible

/-- The row that stands in for the row before the first one. -/
def zeroth (columns : Nat) : Cells := fun k => if k < columns then ⟨impossible, -1, 0⟩ else .blank

end Cells

namespace Board

/-! ## Cells -/

@[simp] theorem size_put (b : Board) (i : Nat) (c : Cell) : (b.put i c).size = b.size := Array.size_setIfInBounds

theorem cell_put (b : Board) (i : Nat) (c : Cell) (k : Nat) :
    (b.put i c).cell k = if k = i ∧ k < b.size then c else b.cell k := by
  unfold put cell
  simp only [Array.getD_eq_getD_getElem?, Array.getElem?_setIfInBounds]
  by_cases hk : k = i
  · subst hk
    by_cases hsize : k < b.size
    · simp [hsize]
    · simp [hsize]
  · simp [hk, Ne.symm hk]

@[simp] theorem size_putBelow (b : Board) (c : Cell) : ∀ n, (b.putBelow c n).size = b.size
  | 0 => rfl
  | n + 1 => by rw [putBelow, size_put, size_putBelow b c n]

theorem cell_putBelow (b : Board) (c : Cell) (k : Nat) :
    ∀ n, (b.putBelow c n).cell k = if k < n ∧ k < b.size then c else b.cell k
  | 0 => by simp [putBelow]
  | n + 1 => by
    rw [putBelow, cell_put, cell_putBelow b c k n, size_putBelow]
    by_cases hk : k = n
    · by_cases hsize : k < b.size <;> simp [hk ▸ hsize, hk]
    · have hlt : k < n + 1 ↔ k < n := by omega
      simp [hk, hlt]

@[simp] theorem size_resize (b : Board) (n : Nat) : (b.resize n).size = n := by
  simp [resize]
  omega

theorem cell_resize (b : Board) {n k : Nat} (h : k < n) : (b.resize n).cell k = b.cell k := by
  unfold resize cell
  simp only [Array.getD_eq_getD_getElem?, Array.getElem?_append, Array.getElem?_replicate]
  by_cases hk : k < b.size
  · have hkept : k < min n b.size := by omega
    simp [hk, hkept]
  · have hcut : ¬ k < min n b.size := by omega
    have hadded : k - min n b.size < n - b.size := by omega
    simp [hk, hcut, hadded]

/-! ## Rows -/

/-- Where a row of a board of `columns` columns starts. -/
def start (columns : Nat) (second : Bool) : Nat := if second then columns else 0

/-- A row of the board, blank where it ends. -/
def row (columns : Nat) (second : Bool) (b : Board) : Cells :=
  fun k => if k < columns then b.cell (start columns second + k) else .blank

variable {columns : Nat}

theorem cell_eq_row {k : Nat} (h : k < columns) (b : Board) (second : Bool) :
    b.cell (start columns second + k) = b.row columns second k := by
  simp [row, h]

theorem row_put (second : Bool) {b : Board} (hsize : b.size = 2 * columns) {i : Nat} (hi : i < columns) (c : Cell) :
    (b.put (start columns second + i) c).row columns second = Function.update (b.row columns second) i c := by
  funext k
  unfold row
  by_cases hk : k < columns
  · have hin : start columns second + k < b.size := by cases second <;> simp [start] <;> omega
    by_cases hki : k = i
    · subst hki
      simp [cell_put, hin, hk]
    · simp [cell_put, hk, hki]
  · have hki : k ≠ i := by omega
    simp [hk, hki]

theorem row_put_other (second : Bool) (b : Board) {i : Nat} (hi : i < columns) (c : Cell) :
    (b.put (start columns second + i) c).row columns (!second) = b.row columns (!second) := by
  funext k
  unfold row
  by_cases hk : k < columns
  · have hne : start columns (!second) + k ≠ start columns second + i := by cases second <;> simp [start] <;> omega
    simp [cell_put, hne]
  · simp [hk]

@[simp] theorem size_fill (b : Board) (last row : Nat) (q : Char) (j : Nat) (c : Char) (bonus : Int) :
    (b.fill last row q j c bonus).size = b.size := by
  unfold fill
  split <;> simp

/-- The filling of one cell, as its row sees it. -/
theorem row_fill (second : Bool) {b : Board} (hsize : b.size = 2 * columns) {j : Nat} (hj : j + 1 < columns)
    (q c : Char) (bonus : Int) :
    (b.fill (start columns !second) (start columns second) q j c bonus).row columns second =
      Cells.fill (b.row columns !second) q j c bonus (b.row columns second) := by
  have hleft : j < columns := by omega
  unfold fill Cells.fill
  simp only [Nat.add_assoc, cell_eq_row hleft, cell_eq_row hj]
  split
  · rw [row_put second (by simpa using hsize) hj, row_put second hsize hleft]
  · rw [row_put second hsize hj]

theorem row_fill_other (second : Bool) (b : Board) {j : Nat} (hj : j + 1 < columns) (q c : Char) (bonus : Int) :
    (b.fill (start columns !second) (start columns second) q j c bonus).row columns (!second) =
      b.row columns (!second) := by
  have hleft : j < columns := by omega
  unfold fill
  simp only [Nat.add_assoc]
  split
  · rw [row_put_other second _ hj, row_put_other second _ hleft]
  · rw [row_put_other second _ hj]

@[simp] theorem size_fillRow (last row : Nat) (q : Char) :
    ∀ (j : Nat) (rest : List (Char × Int)) (b : Board), (fillRow last row q j rest b).size = b.size
  | _, [], _ => rfl
  | j, (c, bonus) :: rest, b => by rw [fillRow, size_fillRow last row q (j + 1) rest, size_fill]

theorem row_fillRow (second : Bool) (q : Char) : ∀ (j : Nat) (rest : List (Char × Int)) {b : Board},
    b.size = 2 * columns → j + rest.length < columns →
      (fillRow (start columns !second) (start columns second) q j rest b).row columns second =
          Cells.fillFrom (b.row columns !second) q j rest (b.row columns second) ∧
        (fillRow (start columns !second) (start columns second) q j rest b).row columns (!second) =
          b.row columns (!second)
  | _, [], _, _, _ => ⟨rfl, rfl⟩
  | j, (c, bonus) :: rest, b, hsize, hj => by
    simp only [List.length_cons] at hj
    have hrest := row_fillRow second q (j + 1) rest
      (b := b.fill (start columns !second) (start columns second) q j c bonus) (by simpa using hsize) (by omega)
    rw [row_fill second hsize (by omega), row_fill_other second b (by omega)] at hrest
    exact hrest

/-- Whether the row filled last is the second one, `second` telling that of the row filled first. -/
def endsSecond (second : Bool) (rows : Nat) : Bool := if rows % 2 = 0 then !second else second

theorem endsSecond_succ (second : Bool) (rows : Nat) : endsSecond second (rows + 1) = endsSecond (!second) rows := by
  unfold endsSecond
  by_cases hrows : rows % 2 = 0
  · have hsucc : ¬ (rows + 1) % 2 = 0 := by omega
    simp [hrows, hsucc]
  · have hsucc : (rows + 1) % 2 = 0 := by omega
    simp [hrows, hsucc]

theorem row_fillRows (title : List (Char × Int)) (hcolumns : columns = title.length + 1) :
    ∀ (second : Bool) (query : List (Char × Nat)) {b : Board}, b.size = 2 * columns →
      (∀ p ∈ query, p.2 < columns) →
      (b.fillRows columns title second query).row columns (endsSecond second query.length) =
        Cells.fillAll title (b.row columns !second) (b.row columns second) query
  | second, [], b, _, _ => by simp [endsSecond, fillRows, Cells.fillAll]
  | second, (q, j) :: rest, b, hsize, hplaces => by
    have hj : j < columns := hplaces (q, j) (by simp)
    obtain ⟨hrow, hother⟩ := row_fillRow second q j (title.drop j) hsize (by simp; omega)
    have hrest := row_fillRows title hcolumns (!second) rest
      (b := fillRow (start columns !second) (start columns second) q j (title.drop j) b) (by simpa using hsize)
      fun p hp => hplaces p (List.mem_cons_of_mem _ hp)
    have hlast : (if second then 0 else columns) = start columns !second := by cases second <;> rfl
    rw [Bool.not_not, hrow, hother] at hrest
    rw [List.length_cons, endsSecond_succ, fillRows, Cells.fillAll, hlast]
    exact hrest

@[simp] theorem size_prepare (first : Nat) (b : Board) : (b.prepare columns first).size = 2 * columns := by
  simp [prepare]

theorem row_prepare_first (first : Nat) (b : Board) : (b.prepare columns first).row columns false = Cells.zeroth columns := by
  funext k
  unfold row Cells.zeroth
  by_cases hk : k < columns
  · have hin : k < 2 * columns := by omega
    simp [hk, hin, start, prepare, cell_putBelow]
  · simp [hk]

/-- The second row of a prepared board is the one that was there, but for the cell in front of the first place. -/
theorem row_prepare_second {first : Nat} (hfirst : first < columns) (b : Board) :
    (b.prepare columns first).row columns true = Function.update (b.row columns true) first .blank := by
  have hput := row_put true (size_resize b (2 * columns)) hfirst .blank
  have hresize : (b.resize (2 * columns)).row columns true = b.row columns true := by
    funext k
    unfold row
    by_cases hk : k < columns
    · simp only [hk, if_true]
      exact cell_resize b (by simp [start]; omega)
    · simp [hk]
  rw [hresize] at hput
  rw [← hput]
  funext k
  have hbehind : ¬ columns + k < columns := by omega
  simp [row, prepare, start, cell_putBelow, hbehind]

theorem best_eq_row (second : Bool) (b : Board) (place : Nat) :
    b.best (start columns second + place) (columns - place) =
      (b.row columns second).best place (columns - place) := by
  have hcells : ((List.range (columns - place)).map fun k => (b.cell (start columns second + place + k)).matched) =
      (List.range (columns - place)).map fun k => (b.row columns second (place + k)).matched := by
    apply List.map_congr_left
    intro k hk
    have hk : place + k < columns := by have := List.mem_range.1 hk; omega
    rw [Nat.add_assoc, cell_eq_row hk]
  rw [best, Cells.best, hcells]

end Board

/-! ## Places -/

/-- Letters in places of a title that are in order, the first one not before `start`. -/
def Placed (title : Text) : Nat → List (Char × Nat) → Prop
  | _, [] => True
  | start, (q, j) :: rest =>
    start ≤ j ∧ (∃ c, title[j]? = some c ∧ sameLetter q c = true) ∧ Placed title (j + 1) rest

theorem length_of_places : ∀ {start : Nat} {query title : Text} {js : List Nat},
    places start query title = some js → js.length = query.length
  | _, [], _, js, h => by
    simp only [places, Option.some.injEq] at h
    simp [← h]
  | _, _ :: _, [], _, h => by simp [places] at h
  | start, q :: qs, c :: t, js, h => by
    rw [places] at h
    by_cases hq : sameLetter q c = true
    · simp only [hq, if_true, Option.map_eq_some_iff] at h
      obtain ⟨rest, hrest, rfl⟩ := h
      simp [length_of_places hrest]
    · simp only [hq] at h
      exact length_of_places h

theorem Placed.mono {title : Text} {start start' : Nat} (h : start' ≤ start) :
    ∀ {query : List (Char × Nat)}, Placed title start query → Placed title start' query
  | [], _ => trivial
  | (_, _) :: _, ⟨hj, hrest⟩ => ⟨Nat.le_trans h hj, hrest⟩

theorem placed_of_places {title : Text} : ∀ {start : Nat} {query rest : Text} {js : List Nat},
    title.drop start = rest → places start query rest = some js → Placed title start (query.zip js)
  | _, [], _, _, _, _ => trivial
  | _, _ :: _, [], _, _, h => by simp [places] at h
  | start, q :: qs, c :: t, js, hdrop, h => by
    have hc : title[start]? = some c := by rw [← List.head?_drop, hdrop]; rfl
    have ht : title.drop (start + 1) = t := by rw [← List.tail_drop, hdrop]; rfl
    rw [places] at h
    by_cases hq : sameLetter q c = true
    · simp only [hq, if_true, Option.map_eq_some_iff] at h
      obtain ⟨js', hjs, rfl⟩ := h
      exact ⟨Nat.le_refl _, ⟨c, hc, hq⟩, placed_of_places ht hjs⟩
    · simp only [hq] at h
      exact (placed_of_places ht h).mono (Nat.le_succ _)

theorem Placed.lt_length {title : Text} : ∀ {start : Nat} {query : List (Char × Nat)},
    Placed title start query → ∀ p ∈ query, p.2 < title.length
  | _, [], _, _, hp => nomatch hp
  | _, (q, j) :: rest, ⟨_, ⟨c, hc, _⟩, hrest⟩, p, hp => by
    rcases List.mem_cons.1 hp with rfl | hp
    · exact (List.getElem?_eq_some_iff.1 hc).1
    · exact hrest.lt_length p hp

/-! ## Scores -/

theorem length_bonusesAfter : ∀ (last : CharKind) (title : Text), (bonusesAfter last title).length = title.length
  | _, [] => rfl
  | _, c :: t => by rw [bonusesAfter, List.length_cons, List.length_cons, length_bonusesAfter (charKind c) t]

theorem length_bonuses (title : Text) : (bonuses title).length = title.length := by
  rw [← length_bonusesAfter .empty title, bonuses]
  cases bonusesAfter .empty title <;> rfl

/-- The letters of a title with their bonuses. -/
def weighed (title : Text) : List (Char × Int) := title.zip (bonuses title)

@[simp] theorem length_weighed (title : Text) : (weighed title).length = title.length := by
  simp [weighed, length_bonuses]

/-- A title is scored on two rows, of which the second one starts as the board has it. -/
theorem score_eq_rows {query title : Text} {first : Nat} {rest : List Nat}
    (h : places 0 query title = some (first :: rest)) (b : Board) :
    (score query title b).1 = some ((Cells.fillAll (weighed title) (Cells.zeroth (title.length + 1))
      (Function.update (b.row (title.length + 1) true) first .blank) (query.zip (first :: rest))).best
      (rest.getLast?.getD first) (title.length + 1 - rest.getLast?.getD first)) := by
  have hplaced := placed_of_places rfl h
  have hrange : ∀ p ∈ query.zip (first :: rest), p.2 < title.length + 1 := fun p hp =>
    Nat.lt_succ_of_lt (hplaced.lt_length p hp)
  have hfirst : first < title.length + 1 := by
    cases query with
    | nil => simp [places] at h
    | cons q qs => exact hrange (q, first) (by simp)
  have hlength : (query.zip (first :: rest)).length = query.length := by
    simp only [List.length_zip, length_of_places h, Nat.min_self]
  have hrows := Board.row_fillRows (weighed title) (by simp) true (query.zip (first :: rest))
    (b := b.prepare (title.length + 1) first) (by simp) hrange
  have hlast : (if query.length % 2 = 0 then 0 else title.length + 1) =
      Board.start (title.length + 1) (Board.endsSecond true query.length) := by
    unfold Board.endsSecond Board.start
    by_cases hrows : query.length % 2 = 0 <;> simp [hrows]
  rw [hlength, Bool.not_true, Board.row_prepare_first, Board.row_prepare_second hfirst] at hrows
  rw [score, h]
  dsimp only
  rw [hlast, Board.best_eq_row, ← hrows]
  rfl

end Search
end WatchList
