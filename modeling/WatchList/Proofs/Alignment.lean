import WatchList.Proofs.Rows
/-!
# Two alignments side by side

A board is not cleared between titles, so a title is scored with bonuses that earlier titles left in the second row.
This module compares the score of a title on such a board with its score on a fresh one.  The fresh one is never the
higher (`score_over`), and on titles of at most 32752 characters the two are the same unless the query is *fragile*: its
characters at even places repeat the first one up to a place where the next character repeats it as well and another one
follows.

Two runs are followed row by row, cell by cell (`Ready`, `Filled`).  A miss clears the bonus of its cell and a match
leaves it, so what may differ in a row, its *loose* bonuses, stands behind characters that every row filled there so far
has matched.  A bonus counts together with the points of a match in the row before.  Behind a character that this row
misses, passing is worth more than any bonus (`Ready.slack`), so a loose bonus can only count behind a character that
both rows match, which makes the query fragile.
-/
namespace WatchList
namespace Search

/-! ## Numbers and cells of two runs -/

/-- `x` is not below `x'`, and equal to it where `even` holds: `even` is what makes two runs the same. -/
def AtLeast (even : Prop) (x' x : Int) : Prop := x' ≤ x ∧ (even → x' = x)

theorem AtLeast.refl {even : Prop} (x : Int) : AtLeast even x x := ⟨Int.le_refl x, fun _ => rfl⟩

theorem AtLeast.add {even : Prop} {x' x y' y : Int} (hx : AtLeast even x' x) (hy : AtLeast even y' y) :
    AtLeast even (x' + y') (x + y) :=
  ⟨Int.add_le_add hx.1 hy.1, fun he => by rw [hx.2 he, hy.2 he]⟩

theorem AtLeast.max {even : Prop} {x' x y' y : Int} (hx : AtLeast even x' x) (hy : AtLeast even y' y) :
    AtLeast even (max x' y') (max x y) :=
  ⟨by have := hx.1; have := hy.1; omega, fun he => by rw [hx.2 he, hy.2 he]⟩

/-- The points that two runs have in a cell: those of the second are not below those of the first. -/
structure Cell.Over (even : Prop) (c' c : Cell) : Prop where
  matched : AtLeast even c'.matched c.matched
  passed : AtLeast even c'.passed c.passed

/-- The bonuses that two runs have in a cell: only a `loose` one keeps even runs apart. -/
structure Cell.Carries (even loose : Prop) (c' c : Cell) : Prop where
  lower : 0 ≤ c'.bonus
  below : c'.bonus ≤ c.bonus
  upper : c.bonus ≤ 16
  same : even → loose ∨ c'.bonus = c.bonus

theorem Cell.Over.refl {even : Prop} (c : Cell) : c.Over even c := ⟨.refl _, .refl _⟩

section cells
variable {even loose : Prop} {c' c : Cell} {bonus : Int}

theorem Cell.Carries.mono {loose' : Prop} (h : Cell.Carries even loose c' c) (hloose : loose → loose') :
    Cell.Carries even loose' c' c :=
  ⟨h.lower, h.below, h.upper, fun he => (h.same he).imp_left hloose⟩

/-- The bonus carried into a match. -/
theorem Cell.Carries.carry (h : Cell.Carries even loose c' c) (hbonus : bonus ≤ 16) :
    Cell.Carries even loose { c' with bonus := max (max c'.bonus bonus) 4 }
      { c with bonus := max (max c.bonus bonus) 4 } := by
  obtain ⟨hlower, hbelow, hupper, hsame⟩ := h
  refine ⟨by dsimp only; omega, by dsimp only; omega, by dsimp only; omega, fun he => (hsame he).imp_right fun heq => ?_⟩
  dsimp only
  rw [heq]

/-- The points of a match, from the cell `d` on the diagonal and the bonus carried: a loose bonus counts for nothing where
it pays to have passed a character. -/
theorem Cell.Carries.matched {d' d : Cell} (hd : d'.Over even d) (h : Cell.Carries even loose c' c)
    (hslack : even → loose → d'.matched + 16 ≤ d'.passed) (hbonus : 0 ≤ bonus ∧ bonus ≤ 16) :
    AtLeast even (max (d'.matched + max (max c'.bonus bonus) 4) (d'.passed + bonus))
      (max (d.matched + max (max c.bonus bonus) 4) (d.passed + bonus)) := by
  obtain ⟨⟨hm, hmeq⟩, hp, hpeq⟩ := hd
  obtain ⟨hlower, hbelow, hupper, hsame⟩ := h
  refine ⟨by omega, fun he => ?_⟩
  rcases hsame he with hloose | hcarried
  · have := hslack he hloose
    have := hmeq he
    have := hpeq he
    omega
  · rw [hmeq he, hpeq he, hcarried]

theorem Cell.Carries.blank (m' p' m p : Int) : Cell.Carries even loose ⟨m', p', 0⟩ ⟨m, p, 0⟩ :=
  ⟨Int.le_refl 0, Int.le_refl 0, by simp, fun _ => .inr rfl⟩

end cells

/-! ## The characters of a title -/

/-- The cell of column `k` lies behind a character with a property. -/
def Behind (title : Text) (P : Char → Prop) : Nat → Prop
  | 0 => False
  | i + 1 => ∃ c, title[i]? = some c ∧ P c

theorem Behind.mono {title : Text} {P Q : Char → Prop} (h : ∀ c, P c → Q c) : ∀ {k}, Behind title P k → Behind title Q k
  | _ + 1, ⟨c, hc, hP⟩ => ⟨c, hc, h c hP⟩

theorem behind_succ_iff {title : Text} {P : Char → Prop} {c : Char} {j : Nat} (hc : title[j]? = some c) :
    Behind title P (j + 1) ↔ P c := by
  simp [Behind, hc]

theorem bonusBetween_bounds (last next : CharKind) : 0 ≤ bonusBetween last next ∧ bonusBetween last next ≤ 8 := by
  cases last <;> cases next <;> decide

theorem bounds_of_mem_bonusesAfter : ∀ {last : CharKind} {title : Text}, ∀ b ∈ bonusesAfter last title, 0 ≤ b ∧ b ≤ 8
  | _, [], _, h => nomatch h
  | last, c :: t, b, h => by
    rcases List.mem_cons.1 h with rfl | h
    · exact bonusBetween_bounds last (charKind c)
    · exact bounds_of_mem_bonusesAfter b h

theorem bounds_of_mem_bonuses {title : Text} : ∀ b ∈ bonuses title, 0 ≤ b ∧ b ≤ 16 := by
  intro b hb
  unfold bonuses at hb
  have hbounds := @bounds_of_mem_bonusesAfter .empty title
  cases hall : bonusesAfter .empty title with
  | nil => simp [hall] at hb
  | cons b₀ bs =>
    rw [hall] at hb hbounds
    rcases List.mem_cons.1 hb with rfl | hb
    · have := hbounds b₀ (by simp)
      omega
    · have := hbounds b (List.mem_cons_of_mem _ hb)
      omega

theorem of_drop_weighed {title : Text} {j : Nat} {c : Char} {bonus : Int} {rest : List (Char × Int)}
    (h : (weighed title).drop j = (c, bonus) :: rest) :
    title[j]? = some c ∧ (0 ≤ bonus ∧ bonus ≤ 16) ∧ (weighed title).drop (j + 1) = rest := by
  have hj : (weighed title)[j]? = some (c, bonus) := by rw [← List.head?_drop, h]; rfl
  obtain ⟨hc, hbonus⟩ := List.getElem?_zip_eq_some.1 hj
  refine ⟨hc, bounds_of_mem_bonuses bonus (List.mem_of_getElem? hbonus), ?_⟩
  rw [← List.tail_drop, h]
  rfl

/-! ## One cell -/

section cell
variable {even : Prop} {last' last row' row : Cells} {q c : Char} {j k : Nat} {bonus : Int}

theorem Cells.fill_points (h : k ≠ j + 1) :
    (Cells.fill last q j c bonus row k).matched = (row k).matched ∧
      (Cells.fill last q j c bonus row k).passed = (row k).passed := by
  unfold Cells.fill
  by_cases hk : k = j
  · subst hk
    split <;> simp
  · split <;> simp [h, hk]

theorem Cells.fill_next (hq : sameLetter q c = true) : Cells.fill last q j c bonus row (j + 1) =
    ⟨max ((last j).matched + max (max (row j).bonus bonus) 4) ((last j).passed + bonus) + (if q = c then 16 else 14),
      max ((row j).matched - 4) ((row j).passed - 1), (row (j + 1)).bonus⟩ := by
  simp [Cells.fill, hq]

theorem Cells.fill_next_missed (hq : sameLetter q c = false) : Cells.fill last q j c bonus row (j + 1) =
    ⟨impossible, max ((row j).matched - 4) ((row j).passed - 1), 0⟩ := by
  simp [Cells.fill, hq]

theorem Cell.Carries.fill {loose : Prop} (hbonus : bonus ≤ 16) (h : Cell.Carries even loose (row' k) (row k)) :
    Cell.Carries even loose (Cells.fill last' q j c bonus row' k) (Cells.fill last q j c bonus row k) := by
  by_cases hnext : k = j + 1
  · subst hnext
    cases hq : sameLetter q c with
    | true =>
      rw [Cells.fill_next hq, Cells.fill_next hq]
      exact ⟨h.lower, h.below, h.upper, h.same⟩
    | false =>
      rw [Cells.fill_next_missed hq, Cells.fill_next_missed hq]
      exact .blank _ _ _ _
  · unfold Cells.fill
    by_cases hleft : k = j
    · subst hleft
      by_cases hq : sameLetter q c = true
      · simpa [hq] using h.carry hbonus
      · simpa [hq] using h
    · split <;> simpa [hnext, hleft] using h

theorem Cell.Over.fill (hlast : (last' j).Over even (last j)) (hleft : (row' j).Over even (row j)) {loose : Prop}
    (hcarries : Cell.Carries even loose (row' j) (row j))
    (hslack : even → loose → (last' j).matched + 16 ≤ (last' j).passed) (hbonus : 0 ≤ bonus ∧ bonus ≤ 16) :
    (Cells.fill last' q j c bonus row' (j + 1)).Over even (Cells.fill last q j c bonus row (j + 1)) := by
  have hpassed := (hleft.matched.add (.refl (-4))).max (hleft.passed.add (.refl (-1)))
  cases hq : sameLetter q c with
  | true =>
    rw [Cells.fill_next hq, Cells.fill_next hq]
    exact ⟨(hcarries.matched hlast hslack hbonus).add (.refl _), hpassed⟩
  | false =>
    rw [Cells.fill_next_missed hq, Cells.fill_next_missed hq]
    exact ⟨.refl _, hpassed⟩

/-- The first character of a row is in place, and pays for the gap in front of it. -/
theorem Cells.floor_fill_first (hq : sameLetter q c = true) (hbonus : 0 ≤ bonus)
    (h : 4 - (j : Int) ≤ (last j).matched ∨ -(j : Int) - 1 ≤ (last j).passed) :
    4 - ((j + 1 : Nat) : Int) ≤ (Cells.fill last q j c bonus row (j + 1)).matched := by
  have hpoints : (14 : Int) ≤ if q = c then 16 else 14 := by split <;> decide
  rw [Cells.fill_next hq]
  dsimp only
  omega

theorem Cells.floor_fill (h : 4 - (j : Int) ≤ (row j).matched ∨ -(j : Int) ≤ (row j).passed) :
    -((j + 1 : Nat) : Int) ≤ (Cells.fill last q j c bonus row (j + 1)).passed := by
  have hpassed : (Cells.fill last q j c bonus row (j + 1)).passed = max ((row j).matched - 4) ((row j).passed - 1) := by
    by_cases hq : sameLetter q c = true <;> simp [Cells.fill, hq]
  omega

end cell

/-! ## One row -/

section row
variable {even : Prop} {title : Text} {loose looseLast : Char → Prop} {q : Char} {first : Nat}
  {last' last row' row : Cells}

/-- Two runs before the row of a character that has its place at `first`.  Its cells may carry loose bonuses behind the
characters with `loose`, those of the row before it behind the characters with `looseLast`.  Where the row has a loose
bonus, the row before it has so many more points for passing a character that the bonus cannot count. -/
structure Ready (even : Prop) (title : Text) (loose looseLast : Char → Prop) (first : Nat)
    (last' last row' row : Cells) : Prop where
  lastOver : ∀ k, first ≤ k → k ≤ title.length → (last' k).Over even (last k)
  lastCarries : ∀ k, first ≤ k → k ≤ title.length → Cell.Carries even (Behind title looseLast k) (last' k) (last k)
  rowOver : (row' first).Over even (row first)
  rowCarries : ∀ k, first ≤ k → k ≤ title.length → Cell.Carries even (Behind title loose k) (row' k) (row k)
  slack : even → ∀ k, first ≤ k → k ≤ title.length → Behind title loose k → (last' k).matched + 16 ≤ (last' k).passed
  floor : 4 - (first : Int) ≤ (last' first).matched ∨ -(first : Int) - 1 ≤ (last' first).passed

/-- Two runs after the cells of the row up to column `j`: a match leaves the bonus of its cell as it was, a miss clears
it, so loose bonuses are left behind matches only. -/
structure Filled (even : Prop) (title : Text) (loose : Char → Prop) (q : Char) (first j : Nat) (row' row : Cells) :
    Prop where
  points : ∀ k, first ≤ k → k ≤ j → (row' k).Over even (row k)
  carries : ∀ k, first ≤ k → k ≤ title.length → Cell.Carries even (Behind title loose k) (row' k) (row k)
  narrowed : ∀ k, first < k → k ≤ j →
    Cell.Carries even (Behind title (fun c => loose c ∧ sameLetter q c = true) k) (row' k) (row k)
  floor : ∀ k, first < k → k ≤ j → 4 - (k : Int) ≤ (row' k).matched ∨ -(k : Int) ≤ (row' k).passed
  missed : ∀ k, first < k → k ≤ j → Behind title (fun c => sameLetter q c = false) k → (row' k).matched = impossible

theorem Ready.filled (h : Ready even title loose looseLast first last' last row' row) :
    Filled even title loose q first first row' row where
  points k hk hk' := by
    have hfirst : k = first := by omega
    exact hfirst ▸ h.rowOver
  carries := h.rowCarries
  narrowed k hk hk' := by omega
  floor k hk hk' := by omega
  missed k hk hk' := by omega

theorem Filled.fill (hready : Ready even title loose looseLast first last' last row' row)
    {rowj' rowj : Cells} {j : Nat} (h : Filled even title loose q first j rowj' rowj) (hj : first ≤ j)
    {c : Char} (hc : title[j]? = some c) {bonus : Int} (hbonus : 0 ≤ bonus ∧ bonus ≤ 16)
    (hplace : j = first → sameLetter q c = true) :
    Filled even title loose q first (j + 1) (Cells.fill last' q j c bonus rowj') (Cells.fill last q j c bonus rowj) where
  points k hk hk' := by
    have hlt : j < title.length := (List.getElem?_eq_some_iff.1 hc).1
    by_cases hnext : k = j + 1
    · subst hnext
      exact .fill (hready.lastOver j hj (by omega)) (h.points j hj (by omega)) (h.carries j hj (by omega))
        (fun he => hready.slack he j hj (by omega)) hbonus
    · have hpoints' := @Cells.fill_points last' rowj' q c j k bonus hnext
      have hpoints := @Cells.fill_points last rowj q c j k bonus hnext
      have hover := h.points k hk (by omega)
      exact ⟨hpoints'.1 ▸ hpoints.1 ▸ hover.matched, hpoints'.2 ▸ hpoints.2 ▸ hover.passed⟩
  carries k hk hk' := (h.carries k hk hk').fill hbonus.2
  narrowed k hk hk' := by
    have hlt : j < title.length := (List.getElem?_eq_some_iff.1 hc).1
    by_cases hnext : k = j + 1
    · subst hnext
      cases hq : sameLetter q c with
      | true =>
        have hboth : Behind title loose (j + 1) → Behind title (fun c => loose c ∧ sameLetter q c = true) (j + 1) :=
          fun hloose => (behind_succ_iff hc).2 ⟨(behind_succ_iff hc).1 hloose, hq⟩
        exact ((h.carries (j + 1) (by omega) hlt).mono hboth).fill hbonus.2
      | false =>
        rw [Cells.fill_next_missed hq, Cells.fill_next_missed hq]
        exact .blank _ _ _ _
    · exact (h.narrowed k hk (by omega)).fill hbonus.2
  floor k hk hk' := by
    -- Nothing is known of the cell in front of the first place, but there the character matches.
    by_cases hnext : k = j + 1
    · subst hnext
      by_cases hfirst : j = first
      · subst hfirst
        exact .inl (Cells.floor_fill_first (hplace rfl) hbonus.1 hready.floor)
      · exact .inr (Cells.floor_fill (h.floor j (by omega) (Nat.le_refl j)))
    · rw [(Cells.fill_points hnext).1, (Cells.fill_points hnext).2]
      exact h.floor k hk (by omega)
  missed k hk hk' hmissed := by
    by_cases hnext : k = j + 1
    · subst hnext
      obtain ⟨c', hc', hq⟩ := hmissed
      rw [hc, Option.some.injEq] at hc'
      subst hc'
      rw [Cells.fill_next_missed hq]
    · rw [(Cells.fill_points hnext).1]
      exact h.missed k hk (by omega) hmissed

theorem Filled.fillFrom (hready : Ready even title loose looseLast first last' last row' row)
    (hplace : Behind title (fun c => sameLetter q c = true) (first + 1)) :
    ∀ {j : Nat} {rest : List (Char × Int)} {rowj' rowj : Cells}, (weighed title).drop j = rest → first ≤ j →
      j ≤ title.length → Filled even title loose q first j rowj' rowj →
      Filled even title loose q first title.length (Cells.fillFrom last' q j rest rowj') (Cells.fillFrom last q j rest rowj)
  | j, [], _, _, hdrop, _, hj, h => by
    have hlength := congrArg List.length hdrop
    simp only [List.length_drop, length_weighed, List.length_nil] at hlength
    have hend : j = title.length := by omega
    exact hend ▸ h
  | j, (c, bonus) :: rest, _, _, hdrop, hfirst, hj, h => by
    obtain ⟨hc, hbonus, hrest⟩ := of_drop_weighed hdrop
    have hlt : j < title.length := (List.getElem?_eq_some_iff.1 hc).1
    have hsame : j = first → sameLetter q c = true := by
      rintro rfl
      exact (behind_succ_iff hc).1 hplace
    have hnext := h.fill hready hfirst hc hbonus hsame
    rw [Cells.fillFrom, Cells.fillFrom]
    exact Filled.fillFrom hready hplace hrest (by omega) hlt hnext

/-- The rows change places.  The row just filled makes up for the gap wherever its character is not in place, so the
loose bonuses of the next row do no harm if they are behind such characters. -/
theorem Ready.next (hready : Ready even title loose looseLast first last' last row' row) {filled' filled : Cells}
    (h : Filled even title loose q first title.length filled' filled) {place : Nat} (hplace : first < place)
    (hin : place ≤ title.length)
    (hloose : even → ∀ c, looseLast c → sameLetter q c = false ∧ title.length ≤ 32752) :
    Ready even title looseLast (fun c => loose c ∧ sameLetter q c = true) place filled' filled last' last where
  lastOver k hk hk' := h.points k (by omega) hk'
  lastCarries k hk hk' := h.narrowed k (by omega) hk'
  rowOver := hready.lastOver place (by omega) hin
  rowCarries k hk hk' := hready.lastCarries k (by omega) hk'
  slack he k hk hk' hbehind := by
    -- The cell of a miss has no points for a match, and its points for passing are no less than `-k`.
    have hmissed := h.missed k (by omega) hk' (hbehind.mono fun c hc => (hloose he c hc).1)
    have hfloor := h.floor k (by omega) hk'
    have hlength : title.length ≤ 32752 := by
      cases k with
      | zero => exact hbehind.elim
      | succ i =>
        obtain ⟨c, -, hc⟩ := hbehind
        exact (hloose he c hc).2
    simp only [impossible] at hmissed
    omega
  floor := by
    have hfloor := h.floor place hplace hin
    omega

end row

/-! ## All rows -/

/-- No row of a query reads a loose bonus where it could count. -/
def Steady (title : Text) (loose looseLast : Char → Prop) : Text → Prop
  | q :: q' :: rest =>
    (∀ c, looseLast c → sameLetter q c = false ∧ title.length ≤ 32752) ∧
      Steady title looseLast (fun c => loose c ∧ sameLetter q c = true) (q' :: rest)
  | _ => True

/-- Past the first character `a` of a query: at the even places stands `a` again, up to a place where the character
after it is `a` too and another one follows. -/
def fragileFrom (a : Char) : Text → Bool
  | q :: c :: rest => sameLetter a q || (sameLetter a c && fragileFrom a rest)
  | _ => false

def fragile : Text → Bool
  | [] => false
  | a :: rest => fragileFrom a rest

/-- What a query and a title need so that no bonus that other titles left can count: the query is not fragile, and the
title is not so long that a gap in it costs more points than the impossible stands for.  The latter does not matter to a
query of two characters. -/
def Settled (query title : Text) : Prop :=
  fragile query = false ∧ (query.length ≤ 2 ∨ title.length ≤ 32752)

instance (query title : Text) : Decidable (Settled query title) := inferInstanceAs (Decidable (_ ∧ _))

theorem steady_of_fragileFrom {title : Text} (hlength : title.length ≤ 32752) (a : Char) :
    ∀ {rest : Text} {loose looseLast : Char → Prop}, (∀ c, ¬ loose c) →
      (∀ c, looseLast c → sameLetter a c = true ∧ fragileFrom a rest = false) → Steady title loose looseLast rest
  | [], _, _, _, _ => trivial
  | [_], _, _, _, _ => trivial
  | q :: c :: rest, loose, looseLast, hloose, h => by
    simp only [fragileFrom, Bool.or_eq_false_iff, Bool.and_eq_false_imp, sameLetter, beq_iff_eq, beq_eq_false_iff_ne]
      at h
    refine ⟨fun x hx => ⟨?_, hlength⟩, ?_⟩
    · -- What the second row carries stands behind `a`, where `q` is a miss, so the next row cannot use it.
      obtain ⟨hax, haq, -⟩ := h x hx
      simpa [sameLetter, ← hax] using Ne.symm haq
    · cases rest with
      | nil => trivial
      | cons p rest =>
        refine ⟨fun x hx => (hloose x hx.1).elim, steady_of_fragileFrom hlength a (fun x hx => hloose x hx.1) fun x hx => ?_⟩
        obtain ⟨hax, -, hrest⟩ := h x hx.1
        have hcx : lowerAscii c = lowerAscii x := by simpa [sameLetter] using hx.2
        exact ⟨by simpa [sameLetter] using hax, hrest (hax.trans hcx.symm)⟩

theorem Settled.steady : ∀ {query title : Text}, Settled query title →
    Steady title (fun _ => True) (fun _ => False) query
  | [], _, _ => trivial
  | [_], _, _ => trivial
  | [_, _], _, _ => ⟨fun _ h => h.elim, trivial⟩
  | a :: q :: c :: rest, title, ⟨hfragile, hsize⟩ => by
    have hlength : title.length ≤ 32752 := by
      simp only [List.length_cons] at hsize
      omega
    exact ⟨fun _ h => h.elim, steady_of_fragileFrom hlength a (fun _ h => h) fun x hx => ⟨hx.2, hfragile⟩⟩

/-- The letter that a query begins with makes it fragile when it is doubled and something follows. -/
example : fragile "eel".toList = true ∧ fragile "ee".toList = false ∧ fragile "erelong".toList = false ∧
    fragile "eerie".toList = true := by decide

/-- The place of the last of some characters, of which the first one has its place at `j`. -/
def lastPlace (j : Nat) : List (Char × Nat) → Nat
  | [] => j
  | (_, j') :: rest => lastPlace j' rest

theorem Ready.fillAll {even : Prop} {title : Text} : ∀ {rest : List (Char × Nat)} {loose looseLast : Char → Prop}
    {q : Char} {first start : Nat} {last' last row' row : Cells},
    Ready even title loose looseLast first last' last row' row → Placed title start ((q, first) :: rest) →
      (even → Steady title loose looseLast (q :: rest.map Prod.fst)) →
      ∀ k, lastPlace first rest ≤ k → k ≤ title.length →
        (Cells.fillAll (weighed title) last' row' ((q, first) :: rest) k).Over even
          (Cells.fillAll (weighed title) last row ((q, first) :: rest) k)
  | rest, loose, looseLast, q, first, start, last', last, row', row, hready, hplaced, hsteady => by
    obtain ⟨-, hplace, hrest⟩ := hplaced
    have hfirst : first < title.length := by
      obtain ⟨c, hc, -⟩ := hplace
      exact (List.getElem?_eq_some_iff.1 hc).1
    have hfilled := Filled.fillFrom hready hplace rfl (Nat.le_refl first) (Nat.le_of_lt hfirst) hready.filled
    rw [Cells.fillAll, Cells.fillAll]
    cases rest with
    | nil => exact hfilled.points
    | cons p rest =>
      obtain ⟨q', place⟩ := p
      have hnext := hready.next hfilled hrest.1 (Nat.le_of_lt (hrest.lt_length (q', place) (by simp)))
        fun he => (hsteady he).1
      exact hnext.fillAll hrest fun he => (hsteady he).2

theorem atLeast_foldl {even : Prop} {f' f : Nat → Int} : ∀ {ks : List Nat} {x' x : Int},
    (∀ k ∈ ks, AtLeast even (f' k) (f k)) → AtLeast even x' x →
      AtLeast even ((ks.map f').foldl max x') ((ks.map f).foldl max x)
  | [], _, _, _, hx => hx
  | k :: ks, _, _, h, hx => by
    have hnext := hx.max (h k (by simp))
    rw [List.map_cons, List.map_cons, List.foldl_cons, List.foldl_cons]
    exact atLeast_foldl (fun k' hk' => h k' (List.mem_cons_of_mem _ hk')) hnext

/-! ## Scores -/

namespace Board

/-- No bonus is greater than that of a first character. -/
def Bounded (b : Board) : Prop := ∀ k, 0 ≤ (b.cell k).bonus ∧ (b.cell k).bonus ≤ 16

variable {b : Board}

theorem bounded_empty : Bounded #[] := fun k => by simp [cell, Cell.blank]

theorem Bounded.put (h : b.Bounded) (i : Nat) {c : Cell} (hc : 0 ≤ c.bonus ∧ c.bonus ≤ 16) : (b.put i c).Bounded := by
  intro k
  rw [cell_put]
  split
  · exact hc
  · exact h k

theorem Bounded.putBelow (h : b.Bounded) {c : Cell} (hc : 0 ≤ c.bonus ∧ c.bonus ≤ 16) : ∀ n, (b.putBelow c n).Bounded
  | 0 => h
  | n + 1 => (h.putBelow hc n).put n hc

theorem Bounded.resize (h : b.Bounded) (n : Nat) : (b.resize n).Bounded := by
  intro k
  by_cases hk : k < n
  · rw [cell_resize b hk]
    exact h k
  · have hblank : (b.resize n).cell k = .blank := by
      simp [cell, Array.getD_eq_getD_getElem?, hk]
    simp [hblank, Cell.blank]

theorem Bounded.prepare (h : b.Bounded) (columns first : Nat) : (b.prepare columns first).Bounded :=
  ((h.resize _).put _ (by decide)).putBelow (by decide) _

theorem Bounded.fill (h : b.Bounded) (last row : Nat) (q : Char) (j : Nat) (c : Char) {bonus : Int}
    (hbonus : 0 ≤ bonus ∧ bonus ≤ 16) : (b.fill last row q j c bonus).Bounded := by
  have hleft := h (row + j)
  unfold Board.fill
  split
  · exact (h.put (row + j) ⟨by dsimp only; omega, by dsimp only; omega⟩).put (row + j + 1) (h (row + j + 1))
  · exact h.put (row + j + 1) (by simp)

theorem Bounded.fillRow (last row : Nat) (q : Char) : ∀ {rest : List (Char × Int)} (j : Nat) {b : Board}, b.Bounded →
    (∀ p ∈ rest, 0 ≤ p.2 ∧ p.2 ≤ 16) → (fillRow last row q j rest b).Bounded
  | [], _, _, h, _ => h
  | (c, bonus) :: rest, j, _, h, hrest =>
    fillRow last row q (j + 1) (h.fill last row q j c (hrest (c, bonus) (by simp)))
      fun p hp => hrest p (List.mem_cons_of_mem _ hp)

theorem Bounded.fillRows (columns : Nat) {title : List (Char × Int)} (htitle : ∀ p ∈ title, 0 ≤ p.2 ∧ p.2 ≤ 16) :
    ∀ (second : Bool) (query : List (Char × Nat)) {b : Board}, b.Bounded →
      (b.fillRows columns title second query).Bounded
  | _, [], _, h => h
  | second, (q, j) :: rest, _, h =>
    fillRows columns htitle (!second) rest (h.fillRow _ _ q j fun p hp => htitle p (List.mem_of_mem_drop hp))

end Board

theorem score_bounded {b : Board} (h : b.Bounded) (query title : Text) : (score query title b).2.Bounded := by
  have htitle : ∀ p ∈ title.zip (bonuses title), 0 ≤ p.2 ∧ p.2 ≤ 16 := fun p hp =>
    bounds_of_mem_bonuses p.2 (List.of_mem_zip hp).2
  unfold score
  split
  · exact h
  · exact h
  · exact (h.prepare _ _).fillRows _ htitle _ _

theorem lastPlace_zip : ∀ {qs : Text} {js : List Nat} (j : Nat), qs.length = js.length →
    lastPlace j (qs.zip js) = js.getLast?.getD j
  | [], [], _, _ => rfl
  | q :: qs, j' :: js, j, h => by
    rw [List.zip_cons_cons, lastPlace, lastPlace_zip j' (by simpa using h), List.getLast?_cons]
    rfl

/-- Before the first row all bonuses that the board has may be loose. -/
theorem ready_first {b : Board} (h : b.Bounded) (even : Prop) {title : Text} {first : Nat}
    (hfirst : first < title.length) :
    Ready even title (fun _ => True) (fun _ => False) first (Cells.zeroth (title.length + 1)) (Cells.zeroth (title.length + 1))
      (Function.update (Board.row (title.length + 1) true #[]) first .blank)
      (Function.update (b.row (title.length + 1) true) first .blank) where
  lastOver k _ _ := .refl _
  lastCarries k _ hk := by
    have hk : k < title.length + 1 := by omega
    simp only [Cells.zeroth, hk, if_true]
    exact .blank _ _ _ _
  rowOver := by
    rw [Function.update_self, Function.update_self]
    exact .refl _
  rowCarries k hk hk' := by
    by_cases hkf : k = first
    · subst hkf
      rw [Function.update_self, Function.update_self]
      exact .blank _ _ _ _
    · obtain ⟨i, rfl⟩ : ∃ i, k = i + 1 := ⟨k - 1, by omega⟩
      have hi : i + 1 < title.length + 1 := by omega
      have hbehind : Behind title (fun _ => True) (i + 1) := ⟨title[i], List.getElem?_eq_getElem hk', trivial⟩
      have hbonus := h (Board.start (title.length + 1) true + (i + 1))
      rw [Function.update_of_ne hkf, Function.update_of_ne hkf, ← Board.cell_eq_row hi, ← Board.cell_eq_row hi]
      exact ⟨Int.le_refl 0, hbonus.1, hbonus.2, fun _ => .inl hbehind⟩
  slack _ k _ hk _ := by
    have hk : k < title.length + 1 := by omega
    simp [Cells.zeroth, hk, impossible]
  floor := by
    have hfirst : first < title.length + 1 := by omega
    simp only [Cells.zeroth, hfirst, if_true]
    omega

/-- A title matches on any board or on none, and scores no less than on a fresh one. -/
theorem score_over {b : Board} (h : b.Bounded) (query title : Text) :
    ((score query title #[]).1 = none ∧ (score query title b).1 = none) ∨
      ∃ s' s, (score query title #[]).1 = some s' ∧ (score query title b).1 = some s ∧
        AtLeast (Settled query title) s' s := by
  cases hplaces : places 0 query title with
  | none => exact .inl (by simp [score, hplaces])
  | some js =>
    refine .inr ?_
    cases js with
    | nil => exact ⟨0, 0, by simp [score, hplaces], by simp [score, hplaces], .refl 0⟩
    | cons first rest =>
      obtain ⟨q, qs, rfl⟩ : ∃ q qs, query = q :: qs := by
        cases query with
        | nil => simp [places] at hplaces
        | cons q qs => exact ⟨q, qs, rfl⟩
      have hlength : qs.length = rest.length := by simpa using (length_of_places hplaces).symm
      have hplaced : Placed title 0 ((q, first) :: qs.zip rest) := placed_of_places rfl hplaces
      have hfirst : first < title.length := hplaced.lt_length (q, first) (by simp)
      have hover := (ready_first h (Settled (q :: qs) title) hfirst).fillAll hplaced fun hsettled => by
        rw [List.map_fst_zip (by omega)]
        exact hsettled.steady
      refine ⟨_, _, score_eq_rows hplaces #[], score_eq_rows hplaces b, atLeast_foldl ?_ (.refl _)⟩
      intro k hk
      have hk := List.mem_range.1 hk
      refine (hover _ ?_ (by omega)).matched
      rw [lastPlace_zip first hlength]
      omega

end Search
end WatchList
