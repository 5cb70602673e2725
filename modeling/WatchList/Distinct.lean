/-!
# Distinct members of a list

`distinctBy key` keeps, of the members with one key, the first, and leaves the order as it was.
-/
namespace WatchList

/-- The members whose key no earlier member has. -/
def distinctBy [BEq β] (key : α → β) : List α → List α
  | [] => []
  | a :: as => a :: (distinctBy key as).filter fun b => key b != key a

theorem sublist_distinctBy [BEq β] (key : α → β) (as : List α) : (distinctBy key as).Sublist as := by
  induction as with
  | nil => exact .slnil
  | cons a as ih => exact .cons_cons a (List.filter_sublist.trans ih)

theorem head?_distinctBy [BEq β] (key : α → β) : ∀ as : List α, (distinctBy key as).head? = as.head?
  | [] => rfl
  | _ :: _ => rfl

/-- What is told apart by itself is all there. -/
theorem mem_distinctBy_id [BEq α] [LawfulBEq α] {a : α} : ∀ {as : List α}, a ∈ distinctBy id as ↔ a ∈ as
  | [] => Iff.rfl
  | b :: bs => by
    rw [distinctBy, List.mem_cons, List.mem_cons, List.mem_filter, mem_distinctBy_id]
    by_cases h : a = b <;> simp [h]

/-- Members without a common key all stay. -/
theorem distinctBy_of_nodup [BEq β] [LawfulBEq β] (key : α → β) :
    ∀ {as : List α}, (as.map key).Nodup → distinctBy key as = as
  | [], _ => rfl
  | a :: as, h => by
    obtain ⟨hne, has⟩ := List.nodup_cons.1 h
    rw [distinctBy, distinctBy_of_nodup key has, List.filter_eq_self.2]
    intro b hb
    have hkey : key b ≠ key a := fun heq => hne (heq ▸ List.mem_map_of_mem hb)
    simpa using hkey

/-- Of two lists, the second adds the members whose key the first does not have. -/
theorem distinctBy_append [BEq β] (key : α → β) : ∀ as bs : List α, distinctBy key (as ++ bs) =
    distinctBy key as ++ (distinctBy key bs).filter fun b => !as.any fun a => key b == key a
  | [], bs => by
    rw [List.nil_append, distinctBy, List.nil_append]
    exact (List.filter_eq_self.2 fun _ _ => rfl).symm
  | a :: as, bs => by
    have ih := distinctBy_append key as bs
    rw [List.cons_append, distinctBy, ih, List.filter_append, List.filter_filter, distinctBy, List.cons_append]
    congr 3
    funext b
    rw [List.any_cons, Bool.not_or]
    rfl

end WatchList
