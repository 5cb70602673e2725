/-!
# Stable sorting

A merge sort puts the first member of a list in front of those that it may come before, and behind all others
(`mergeSort_cons_eq`).  So members that are left out change nothing in the order of the others (`mergeSort_sublist`,
`filter_mergeSort`), members of one rank keep their order (`pairwise_mergeSort_of_pairwise`), and a member that comes
before all others comes first (`mergeSort_middle`).
-/
namespace WatchList

section
variable {α : Type} {le : α → α → Bool} (htrans : ∀ a b c, le a b = true → le b c = true → le a c = true)
  (htotal : ∀ a b, (le a b || le b a) = true)
include htrans htotal

theorem mergeSort_cons_eq (a : α) (l : List α) :
    (a :: l).mergeSort le = (l.mergeSort le).filter (fun b => !le a b) ++ a :: (l.mergeSort le).filter (le a) := by
  obtain ⟨l₁, l₂, hcons, hl, hbefore⟩ := List.mergeSort_cons htrans htotal a l
  have hsorted := List.pairwise_mergeSort htrans htotal (a :: l)
  rw [hcons] at hsorted
  have hafter : ∀ b ∈ l₂, le a b = true := (List.pairwise_cons.1 (List.pairwise_append.1 hsorted).2.1).1
  have hleft : l₁.filter (fun b => !le a b) = l₁ ∧ l₁.filter (le a) = [] :=
    ⟨List.filter_eq_self.2 hbefore, List.filter_eq_nil_iff.2 fun b hb => by simpa using hbefore b hb⟩
  have hright : l₂.filter (fun b => !le a b) = [] ∧ l₂.filter (le a) = l₂ :=
    ⟨List.filter_eq_nil_iff.2 fun b hb => by simp [hafter b hb], List.filter_eq_self.2 hafter⟩
  rw [hcons, hl, List.filter_append, List.filter_append, hleft.1, hleft.2, hright.1, hright.2, List.append_nil,
    List.nil_append]

/-- The sort is stable: what is left out before it is left out after it, and nothing else changes. -/
theorem mergeSort_sublist {l' l : List α} (h : l'.Sublist l) : (l'.mergeSort le).Sublist (l.mergeSort le) := by
  induction h with
  | slnil => exact List.Sublist.refl _
  | @cons l' l a _ ih =>
    obtain ⟨l₁, l₂, hcons, hl, -⟩ := List.mergeSort_cons htrans htotal a l
    rw [hl] at ih
    rw [hcons]
    exact ih.trans (List.Sublist.append_left (List.sublist_cons_self a l₂) l₁)
  | @cons_cons l' l a _ ih =>
    -- Both lists are cut in two by how they compare with `a`, and `a` comes to stand between the parts.
    rw [mergeSort_cons_eq htrans htotal, mergeSort_cons_eq htrans htotal]
    exact (ih.filter _).append ((ih.filter _).cons_cons a)

theorem filter_mergeSort (p : α → Bool) : ∀ l : List α, (l.mergeSort le).filter p = (l.filter p).mergeSort le
  | [] => by simp
  | a :: l => by
    have ih := filter_mergeSort p l
    by_cases ha : p a = true
    · have hswap : ∀ q : α → Bool, ((l.mergeSort le).filter q).filter p = ((l.filter p).mergeSort le).filter q := by
        intro q
        rw [← ih, List.filter_filter, List.filter_filter]
        apply List.filter_congr
        intro b _
        rw [Bool.and_comm]
      rw [List.filter_cons_of_pos ha, mergeSort_cons_eq htrans htotal, mergeSort_cons_eq htrans htotal,
        List.filter_append, List.filter_cons_of_pos ha, hswap, hswap]
    · obtain ⟨l₁, l₂, hcons, hl, -⟩ := List.mergeSort_cons htrans htotal a l
      rw [List.filter_cons_of_neg ha, ← ih, hcons, hl, List.filter_append, List.filter_append,
        List.filter_cons_of_neg ha]

/-- The sort is stable: of two members that may come before each other the one that stands first stays first. -/
theorem pairwise_mergeSort_of_pairwise {R : α → α → Prop} : ∀ {l : List α}, l.Pairwise R →
    (l.mergeSort le).Pairwise fun a b => le a b = true ∧ (le b a = true → R a b)
  | [], _ => by simp
  | a :: l, h => by
    obtain ⟨ha, hl⟩ := List.pairwise_cons.1 h
    have ih := pairwise_mergeSort_of_pairwise hl
    rw [mergeSort_cons_eq htrans htotal]
    refine List.pairwise_append.2 ⟨ih.filter _, List.pairwise_cons.2 ⟨fun b hb => ?_, ih.filter _⟩, fun x hx y hy => ?_⟩
    · obtain ⟨hmem, hab⟩ := List.mem_filter.1 hb
      exact ⟨hab, fun _ => ha b (List.mem_mergeSort.1 hmem)⟩
    · -- `x` comes before `a` and not the other way round, and `y` is `a` or behind it
      have hax : le a x = false := by simpa using (List.mem_filter.1 hx).2
      have hxa : le x a = true := by simpa [hax] using htotal a x
      rcases List.mem_cons.1 hy with rfl | hy
      · exact ⟨hxa, fun hax' => by simp [hax] at hax'⟩
      · have hay : le a y = true := (List.mem_filter.1 hy).2
        refine ⟨htrans x a y hxa hay, fun hyx => ?_⟩
        have hax' := htrans a y x hay hyx
        simp [hax] at hax'

/-- A member that comes before the others, wherever it is, and that no other comes before. -/
theorem mergeSort_middle {a : α} {l' : List α} (hl' : ∀ b ∈ l', le a b = true) :
    ∀ {l : List α}, (∀ b ∈ l, le b a = false) → (l ++ a :: l').mergeSort le = a :: (l ++ l').mergeSort le
  | [], _ => by
    have hbehind : ∀ b ∈ l'.mergeSort le, le a b = true := fun b hb => hl' b (List.mem_mergeSort.1 hb)
    have hnone : (l'.mergeSort le).filter (fun b => !le a b) = [] :=
      List.filter_eq_nil_iff.2 fun b hb => by simp [hbehind b hb]
    rw [List.nil_append, List.nil_append, mergeSort_cons_eq htrans htotal, hnone, List.filter_eq_self.2 hbehind,
      List.nil_append]
  | b :: l, h => by
    obtain ⟨hb, hl⟩ := List.forall_mem_cons.1 h
    rw [List.cons_append, List.cons_append, mergeSort_cons_eq htrans htotal, mergeSort_middle hl' hl,
      mergeSort_cons_eq htrans htotal, List.filter_cons_of_pos (by simp [hb]), List.filter_cons_of_neg (by simp [hb]),
      List.cons_append]

end

end WatchList
