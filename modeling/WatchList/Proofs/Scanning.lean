import WatchList.Pattern.Scan
import WatchList.Proofs.Barrier
/-!
# Scanning in halves

A scan takes one step after another (`scan_cons_hit`, `scan_cons_gap`).  It falls into two scans at every place that the
pattern does not see past (`scan_append_of_taken`).  What it takes never reaches through a barrier, so it falls into two
around one (`scan_append`), and a barrier that begins no hit stands between them alone (`scan_append_skip`).
-/
namespace WatchList

namespace Token

/-- What stands in the place of a token when `r` is put in the place of every hit. -/
def filled (r : Text) : Token Char → Text
  | .gap c => [c]
  | .hit _ _ => r

theorem flatMap_filled_gaps (r s : Text) (ts : List (Token Char)) :
    (s.map gap ++ ts).flatMap (filled r) = s ++ ts.flatMap (filled r) := by
  rw [List.flatMap_append, List.flatMap_map]
  congr 1
  exact List.flatMap_singleton' s

end Token

namespace Pattern

variable {α : Type} {p : Pattern} {b : Char}

/-! ## One step of a scan -/

theorem scan_nil (char : α → Char) (before : Option Char) : p.scan char before [] = [] := by rw [scan]

theorem scan_cons_hit {char : α → Char} {before : Option Char} {a : α} {as : List α} {n : Nat}
    (h : p.taken char before (a :: as) = n + 1) :
    p.scan char before (a :: as) =
      .hit a (as.take n) :: p.scan char (some (char ((as.take n).getLast?.getD a))) (as.drop n) := by
  rw [scan]
  simp only [h]

theorem scan_cons_gap {char : α → Char} {before : Option Char} {a : α} {as : List α}
    (h : p.taken char before (a :: as) = 0) :
    p.scan char before (a :: as) = .gap a :: p.scan char (some (char a)) as := by
  rw [scan]
  simp only [h]

theorem taken_le (hw : p.Within) (char : α → Char) (before : Option Char) (as : List α) :
    p.taken char before as ≤ as.length := by
  unfold taken
  cases h : p before (as.map char) with
  | none => exact Nat.zero_le _
  | some n => simpa using hw before _ n h

theorem taken_append (hb : p.Barrier b) (char : α → Char) (before : Option Char) (a : α) (as bs : List α) {x : α}
    (hx : char x = b) : p.taken char before (a :: (as ++ x :: bs)) = p.taken char before (a :: as) := by
  have hmap : (a :: (as ++ x :: bs)).map char = (a :: as).map char ++ b :: bs.map char := by simp [hx]
  rw [taken, taken, hmap, hb.hides before _ _ (by simp)]

/-- The character before a place does not depend on where the scan was begun. -/
theorem last_cons (char : α → Char) (before : Option Char) (a : α) (u : List α) :
    (u.getLast?.map char).or (some (char a)) = ((a :: u).getLast?.map char).or before := by
  rw [List.getLast?_cons]
  cases u.getLast? <;> rfl

/-- **At a hit the pattern fits**: between the members before the hit and those after it. -/
theorem place_of_hit_mem (hw : p.Within) {char : α → Char} {before : Option Char} {as : List α} {a : α}
    {rest : List α} (h : Token.hit a rest ∈ p.scan char before as) :
    ∃ u v, as = u ++ (a :: rest) ++ v ∧
      p ((u.getLast?.map char).or before) ((a :: rest ++ v).map char) = some (rest.length + 1) := by
  fun_induction scan p char before as with
  | case1 => cases h
  | case2 before c as n hn ih =>
    have hle := taken_le hw char before (c :: as)
    rw [hn, List.length_cons] at hle
    rcases List.mem_cons.1 h with h | h
    · obtain ⟨rfl, rfl⟩ := Token.hit.inj h
      have hsplit : a :: as.take n ++ as.drop n = a :: as := congrArg (a :: ·) (List.take_append_drop n as)
      refine ⟨[], as.drop n, by rw [List.nil_append, hsplit], ?_⟩
      rw [hsplit, List.length_take, Nat.min_eq_left (by omega)]
      unfold taken at hn
      cases hp : p before ((a :: as).map char) with
      | none => rw [hp] at hn; cases hn
      | some m => rw [hp] at hn; exact hp.trans (congrArg some hn)
    · obtain ⟨u, v, hdrop, hfit⟩ := ih h
      refine ⟨c :: (as.take n ++ u), v, ?_, ?_⟩
      · rw [List.cons_append, List.cons_append, List.append_assoc, List.append_assoc, ← List.append_assoc u, ← hdrop,
          List.take_append_drop]
      · rw [← hfit, ← last_cons, List.getLast?_append]
        congr 1
        cases u.getLast? <;> cases (as.take n).getLast? <;> rfl
  | case3 before c as hn ih =>
    rcases List.mem_cons.1 h with h | h
    · cases h
    · obtain ⟨u, v, rfl, hfit⟩ := ih h
      exact ⟨c :: u, v, rfl, by rw [← last_cons]; exact hfit⟩

/-- **Where the pattern fits somewhere, there is a hit.** -/
theorem hit_mem_of_taken (hw : p.Within) {char : α → Char} {before : Option Char} {u v : List α}
    (h : p.taken char ((u.getLast?.map char).or before) v ≠ 0) :
    ∃ l ls, Token.hit l ls ∈ p.scan char before (u ++ v) := by
  generalize has : u ++ v = as
  fun_induction scan p char before as generalizing u with
  | case1 =>
    obtain ⟨rfl, rfl⟩ := List.append_eq_nil_iff.1 has
    exact absurd (Nat.le_zero.1 (taken_le hw char _ [])) h
  | case2 before a as n hn ih => exact ⟨_, _, List.mem_cons_self⟩
  | case3 before a as hn ih =>
    cases u with
    | nil =>
      rw [List.nil_append] at has
      rw [has] at h
      exact absurd hn h
    | cons b u =>
      obtain ⟨rfl, rfl⟩ := List.cons.inj has
      obtain ⟨l, ls, hmem⟩ := ih (by rwa [last_cons]) rfl
      exact ⟨l, ls, List.mem_cons_of_mem _ hmem⟩

/-! ## Hits of a text -/

theorem hitsFrom_ne_nil {ts : List (Token Char)} {c : Char} {cs : Text} (h : Token.hit c cs ∈ ts) (start : Nat) :
    hitsFrom start ts ≠ [] := by
  induction ts generalizing start with
  | nil => cases h
  | cons tok ts ih =>
    cases tok with
    | gap d =>
      rcases List.mem_cons.1 h with h | h
      · cases h
      · exact ih h _
    | hit d ds => exact List.cons_ne_nil _ _

theorem exists_hit_of_mem_hitsFrom {ts : List (Token Char)} {start : Nat} {o : Occurrence}
    (h : o ∈ hitsFrom start ts) : ∃ c cs, Token.hit c cs ∈ ts ∧ o.text = c :: cs := by
  induction ts generalizing start with
  | nil => cases h
  | cons tok ts ih =>
    cases tok with
    | gap c =>
      obtain ⟨d, ds, hmem, ho⟩ := ih h
      exact ⟨d, ds, List.mem_cons_of_mem _ hmem, ho⟩
    | hit c cs =>
      rcases List.mem_cons.1 h with rfl | h
      · exact ⟨c, cs, List.mem_cons_self, rfl⟩
      · obtain ⟨d, ds, hmem, ho⟩ := ih h
        exact ⟨d, ds, List.mem_cons_of_mem _ hmem, ho⟩

theorem occursIn_of_taken (hw : p.Within) {u v : Text} (h : p.taken id u.getLast? v ≠ 0) :
    p.occursIn (u ++ v) = true := by
  have htaken : p.taken id ((u.getLast?.map id).or none) v ≠ 0 := by rwa [Option.map_id, id_eq, Option.or_none]
  obtain ⟨c, cs, hhit⟩ := hit_mem_of_taken hw htaken
  rw [occursIn, Bool.not_eq_true', List.isEmpty_eq_false_iff]
  exact hitsFrom_ne_nil hhit 0

/-! ## What is put in the place of hits -/

theorem replaceAll_eq (p : Pattern) (r t : Text) : p.replaceAll r t = (p.tokens t).flatMap (Token.filled r) := rfl

theorem mem_replaceAll {p : Pattern} {r t : Text} {c : Char} (h : c ∈ p.replaceAll r t) : c ∈ r ∨ c ∈ t := by
  obtain ⟨tok, htok, hc⟩ := List.mem_flatMap.1 h
  cases tok with
  | hit d ds => exact .inl hc
  | gap d =>
    right
    rw [← items_scan p id none t]
    exact List.mem_flatMap.2 ⟨_, htok, hc⟩

/-! ## Around a place -/

/-- **A scan falls into two** where the pattern takes the same before the place whether or not it sees what follows. -/
theorem scan_append_of_taken (hw : p.Within) (char : α → Char) (before : Option Char) {as bs : List α}
    (h : ∀ before u s, u ++ s = as → s ≠ [] → p.taken char before (s ++ bs) = p.taken char before s) :
    p.scan char before (as ++ bs) = p.scan char before as ++ p.scan char ((as.getLast?.map char).or before) bs := by
  fun_induction scan p char before as with
  | case1 => rfl
  | case2 before a as n hn ih =>
    have hle := taken_le hw char before (a :: as)
    rw [hn, List.length_cons] at hle
    have hlast : ((as.drop n).getLast?.map char).or (some (char ((as.take n).getLast?.getD a))) =
        ((a :: as).getLast?.map char).or before := by
      conv => rhs; rw [← List.take_append_drop n as, List.getLast?_cons, List.getLast?_append]
      cases (as.drop n).getLast? <;> rfl
    have htaken := h before [] (a :: as) rfl (List.cons_ne_nil a as)
    have hrest := ih fun before u s hs => h before (a :: (as.take n ++ u)) s (by
      rw [List.cons_append, List.append_assoc, hs, List.take_append_drop])
    rw [List.cons_append] at htaken ⊢
    rw [scan_cons_hit (htaken.trans hn), List.take_append_of_le_length (by omega),
      List.drop_append_of_le_length (by omega), hrest, hlast]
    rfl
  | case3 before a as hn ih =>
    have htaken := h before [] (a :: as) rfl (List.cons_ne_nil a as)
    have hrest := ih fun before u s hs => h before (a :: u) s (by rw [List.cons_append, hs])
    rw [List.cons_append] at htaken ⊢
    rw [scan_cons_gap (htaken.trans hn), hrest, last_cons char before]
    rfl

/-- The character before a list matters only where a hit could begin at once. -/
theorem scan_congr {char : α → Char} {before before' : Option Char} {as : List α}
    (h : p before (as.map char) = p before' (as.map char)) : p.scan char before as = p.scan char before' as := by
  cases as with
  | nil => rw [scan_nil, scan_nil]
  | cons a as =>
    have htaken : p.taken char before (a :: as) = p.taken char before' (a :: as) := by rw [taken, taken, h]
    cases hn : p.taken char before' (a :: as) with
    | zero => rw [scan_cons_gap hn, scan_cons_gap (htaken.trans hn)]
    | succ n => rw [scan_cons_hit hn, scan_cons_hit (htaken.trans hn)]

/-- **Around a barrier a scan falls into two.** -/
theorem scan_append (hw : p.Within) (hb : p.Barrier b) (char : α → Char) (before : Option Char) (as bs : List α) {x : α}
    (hx : char x = b) :
    p.scan char before (as ++ x :: bs) =
      p.scan char before as ++ p.scan char ((as.getLast?.map char).or before) (x :: bs) := by
  refine scan_append_of_taken hw char before fun before u s _ hs => ?_
  obtain ⟨a, s, rfl⟩ := List.exists_cons_of_ne_nil hs
  exact taken_append hb char before a s bs hx

theorem scan_begins (hb : p.Barrier b) (char : α → Char) (as : List α) :
    p.scan char (some b) as = p.scan char none as := scan_congr (hb.begins _)

theorem scan_skip (hb : p.Barrier b) (hs : p.Skips b) (char : α → Char) (before : Option Char) {x : α}
    (hx : char x = b) (bs : List α) : p.scan char before (x :: bs) = .gap x :: p.scan char none bs := by
  have h0 : p.taken char before (x :: bs) = 0 := by
    rw [taken, List.map_cons, hx, hs]
    rfl
  rw [scan_cons_gap h0, hx, scan_begins hb]

theorem scan_append_skip (hw : p.Within) (hb : p.Barrier b) (hs : p.Skips b) (char : α → Char) (before : Option Char)
    (as : List α) {x : α} (hx : char x = b) (bs : List α) :
    p.scan char before (as ++ x :: bs) = p.scan char before as ++ .gap x :: p.scan char none bs := by
  rw [scan_append hw hb char before as bs hx, scan_skip hb hs char _ hx]

end Pattern
end WatchList
