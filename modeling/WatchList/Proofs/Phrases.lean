import WatchList.Proofs.Barrier
/-!
# What a phrase takes

A phrase goes through a text in steps: a letter of it takes one character, and a space of it takes a whole run of blanks
(`exists_of_reach_cons`).  So it takes the same where nothing follows (`reach_take`), and where a space and a text follow
that no rest of the phrase goes on with (`reach_append_space`).
-/
namespace WatchList
namespace Pattern

/-! ## Step by step -/

theorem blank_space : ∀ c ∈ [' '], isBlank c = true := List.forall_mem_singleton.2 (by decide)

theorem exists_run (t : Text) :
    ∃ u v, t = u ++ v ∧ (∀ c ∈ u, isBlank c = true) ∧ v.head?.any isBlank = false := by
  refine ⟨t.takeWhile isBlank, t.dropWhile isBlank, List.takeWhile_append_dropWhile.symm,
    List.all_eq_true.1 List.all_takeWhile, ?_⟩
  have hhead := List.head?_dropWhile_not isBlank t
  cases h : (t.dropWhile isBlank).head? with
  | none => rfl
  | some c => simpa [h] using hhead

section
variable {u v : Text} (hu : ∀ c ∈ u, isBlank c = true) (hv : v.head?.any isBlank = false)
include hu hv

theorem blankRun_run : blankRun (u ++ v) = u.length := by
  have hnone : v.takeWhile isBlank = [] := by
    cases v with
    | nil => rfl
    | cons c v =>
      have hc : isBlank c = false := hv
      rw [List.takeWhile_cons, if_neg (Bool.eq_false_iff.1 hc)]
  rw [blankRun, List.takeWhile_append_of_pos hu, hnone, List.append_nil]

/-- A space in a phrase takes all blanks that stand there. -/
theorem reach_space (w : Text) :
    reach (' ' :: w) (u ++ v) = if u = [] then none else (reach w v).map (u.length + ·) := by
  conv => lhs; unfold reach
  rw [if_pos rfl, blankRun_run hu hv]
  cases u with
  | nil => rfl
  | cons c u => simp

end

theorem reach_letter {a c : Char} (ha : a ≠ ' ') (w t : Text) :
    reach (a :: w) (c :: t) = if foldLetter c = a then (reach w t).map (1 + ·) else none := by
  rw [reach, if_neg ha]

/-- **What a phrase takes**, step by step: a run of blanks for a space, and a letter in some casing for a letter. -/
theorem exists_of_reach_cons {a : Char} {w t : Text} {n : Nat} (h : reach (a :: w) t = some n) :
    ∃ u v k, t = u ++ v ∧ n = u.length + k ∧ reach w v = some k ∧
      ((a = ' ' ∧ u ≠ [] ∧ (∀ c ∈ u, isBlank c = true) ∧ v.head?.any isBlank = false) ∨
        (a ≠ ' ' ∧ ∃ c, u = [c] ∧ foldLetter c = a)) := by
  by_cases ha : a = ' '
  · obtain ⟨u, v, rfl, hu, hv⟩ := exists_run t
    rw [ha, reach_space hu hv] at h
    split at h
    · cases h
    · rename_i hne
      obtain ⟨k, hk, rfl⟩ := Option.map_eq_some_iff.1 h
      exact ⟨u, v, k, rfl, rfl, hk, .inl ⟨ha, hne, hu, hv⟩⟩
  · cases t with
    | nil => simp [reach, ha] at h
    | cons c v =>
      rw [reach_letter ha] at h
      split at h
      · rename_i hc
        obtain ⟨k, hk, rfl⟩ := Option.map_eq_some_iff.1 h
        exact ⟨[c], v, k, rfl, rfl, hk, .inr ⟨ha, c, rfl, hc⟩⟩
      · cases h

/-- A phrase takes the same where nothing follows. -/
theorem reach_take {w t : Text} {n : Nat} (h : reach w t = some n) : reach w (t.take n) = some n := by
  induction w generalizing t n with
  | nil => exact h
  | cons a w ih =>
    obtain ⟨u, v, k, rfl, rfl, hk, ⟨rfl, hne, hu, hv⟩ | ⟨ha, c, rfl, hc⟩⟩ := exists_of_reach_cons h
    · have hhead : (v.take k).head?.any isBlank = false := by
        rw [List.head?_take]
        split
        · rfl
        · exact hv
      rw [List.take_length_add_append, reach_space hu hhead, if_neg hne, ih hk]
      rfl
    · rw [List.take_length_add_append, List.singleton_append, reach_letter ha, if_pos hc, ih hk]
      rfl

/-! ## Before a space -/

/-- A text that does not end in a blank has blanks, if any, before what is not blank. -/
theorem exists_run_of_last {s : Text} (hne : s ≠ []) (hs : s.getLast?.any isBlank = false) :
    ∃ u v, s = u ++ v ∧ (∀ c ∈ u, isBlank c = true) ∧ v ≠ [] ∧ v.head?.any isBlank = false ∧
      v.getLast?.any isBlank = false := by
  obtain ⟨u, v, rfl, hu, hv⟩ := exists_run s
  cases v with
  | nil =>
    rw [List.append_nil] at hne hs
    have hblank := hu _ (List.getLast_mem hne)
    rw [List.getLast?_eq_some_getLast hne, Option.any_some, hblank] at hs
    cases hs
  | cons c v =>
    refine ⟨u, c :: v, rfl, hu, List.cons_ne_nil c v, hv, ?_⟩
    rw [List.getLast?_append] at hs
    rw [List.getLast?_cons] at hs ⊢
    exact hs

/-- No space of the phrase can be the one before `rest`: what the phrase has behind it does not go on with `rest`. -/
def endsBefore (rest : Text) : Text → Bool
  | [] => true
  | a :: w => (a != ' ' || (reach w rest).isNone) && endsBefore rest w

/-- **A phrase does not see a space behind a text** with what follows it, if it does not go on there. -/
theorem reach_append_space {rest : Text} (hrest : rest.head?.any isBlank = false) {w s : Text}
    (hw : endsBefore rest w = true) (hs : s.getLast?.any isBlank = false) :
    reach w (s ++ ' ' :: rest) = reach w s := by
  induction w generalizing s with
  | nil => rfl
  | cons a w ih =>
    obtain ⟨ha, hw⟩ := Bool.and_eq_true_iff.1 hw
    by_cases hsp : a = ' '
    · rw [hsp] at ha ⊢
      by_cases hne : s = []
      · have hends : reach w rest = none := by simpa using ha
        have hspace := reach_space blank_space hrest w
        have hnone := reach_space (v := []) (List.forall_mem_nil _) rfl w
        rw [List.singleton_append, if_neg (List.cons_ne_nil _ _), hends] at hspace
        rw [List.append_nil, if_pos rfl] at hnone
        rw [hne, List.nil_append, hspace, hnone]
        rfl
      · obtain ⟨u, v, rfl, hu, hvne, hv, hlast⟩ := exists_run_of_last hne hs
        have hmore : (v ++ ' ' :: rest).head?.any isBlank = false := by
          obtain ⟨c, v, rfl⟩ := List.exists_cons_of_ne_nil hvne
          exact hv
        rw [List.append_assoc, reach_space hu hmore, reach_space hu hv, ih hw hlast]
    · cases s with
      | nil =>
        have hspace : foldLetter ' ' ≠ a := fun h => hsp (h.symm.trans (by decide))
        rw [List.nil_append, reach_letter hsp, if_neg hspace]
        simp [reach, hsp]
      | cons c s =>
        have hlast : s.getLast?.any isBlank = false := by
          rw [List.getLast?_cons] at hs
          cases h : s.getLast? with
          | none => rfl
          | some d => simpa [h] using hs
        rw [List.cons_append, reach_letter hsp, reach_letter hsp, ih hw hlast]

end Pattern
end WatchList
