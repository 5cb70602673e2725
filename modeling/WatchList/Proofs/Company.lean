import WatchList.Catalog.Shelf
import WatchList.Proofs.Alignment
import WatchList.Proofs.Sorting
import WatchList.Search.Basic
/-!
# A title and its company

What a title scores in a search may depend on the titles that are gone through before it.  In a search by a new searcher
it never scores less in company than it does alone.  For a query that is not fragile it scores the same, unless it is
immensely long, so that other titles may come and go and the hits keep their order (`run_in_company`).  For a fragile
query, such as *eel*, they do not: a title overtakes another one because a third is there.

A search lists the titles of a status and scores them before it lists the next ones.  Where no listing is refused this is
to list all entries first (`entries`) and to score them in one go (`gather_of_entries`), on whatever board.
-/
namespace WatchList
namespace Search

/-- The hit of an entry with no others beside it. -/
def alone (query : Text) (e : Entry) : Option Hit := (score query e.title #[]).1.map fun s => ⟨e.title, e.status, s⟩

/-! ## The hits -/

theorem hitsFrom_cons (query : Text) (b : Board) (e : Entry) (es : List Entry) : hitsFrom query b (e :: es) =
    (((score query e.title b).1.map fun s => ⟨e.title, e.status, s⟩).toList ++
        (hitsFrom query (score query e.title b).2 es).1,
      (hitsFrom query (score query e.title b).2 es).2) := by
  rw [hitsFrom]
  rcases score query e.title b with ⟨_ | s, b'⟩ <;> rfl

theorem hitsFrom_append (query : Text) : ∀ (es es' : List Entry) (b : Board), hitsFrom query b (es ++ es') =
    ((hitsFrom query b es).1 ++ (hitsFrom query (hitsFrom query b es).2 es').1,
      (hitsFrom query (hitsFrom query b es).2 es').2)
  | [], _, _ => rfl
  | e :: es, es', b => by
    simp only [List.cons_append, hitsFrom_cons, hitsFrom_append, List.append_assoc]

theorem mem_hitsFrom {query : Text} {h : Hit} : ∀ {es : List Entry} {b : Board}, b.Bounded →
    h ∈ (hitsFrom query b es).1 → ∃ s, alone query ⟨h.title, h.status⟩ = some ⟨h.title, h.status, s⟩ ∧
      AtLeast (Settled query h.title) s h.score
  | [], _, _, hh => nomatch hh
  | e :: es, b, hb, hh => by
    have hrest := score_bounded hb query e.title
    rw [hitsFrom_cons] at hh
    rcases score_over hb query e.title with ⟨-, hnone⟩ | ⟨s', s, hs', hs, hover⟩
    · rw [hnone] at hh
      exact mem_hitsFrom hrest hh
    · rw [hs] at hh
      rcases List.mem_cons.1 hh with rfl | hh
      · exact ⟨s', by simp [alone, hs'], hover⟩
      · exact mem_hitsFrom hrest hh

theorem hitsFrom_of_settled {query : Text} : ∀ {es : List Entry} {b : Board}, b.Bounded →
    (∀ e ∈ es, Settled query e.title) → (hitsFrom query b es).1 = es.filterMap (alone query)
  | [], _, _, _ => rfl
  | e :: es, b, hb, hes => by
    have hrest : (hitsFrom query (score query e.title b).2 es).1 = es.filterMap (alone query) :=
      hitsFrom_of_settled (score_bounded hb query e.title) fun e' he' => hes e' (List.mem_cons_of_mem _ he')
    rw [hitsFrom_cons, List.filterMap_cons, hrest]
    rcases score_over hb query e.title with ⟨hnone', hnone⟩ | ⟨s', s, hs', hs, hover⟩
    · simp [hnone, alone, hnone']
    · simp [hs, alone, hs', hover.2 (hes e (by simp))]

theorem length_hitsFrom_le (query : Text) : ∀ (es : List Entry) (b : Board), (hitsFrom query b es).1.length ≤ es.length
  | [], _ => Nat.le_refl 0
  | e :: es, b => by
    have hrest := length_hitsFrom_le query es (score query e.title b).2
    rw [hitsFrom_cons]
    cases (score query e.title b).1 with
    | none => exact Nat.le_succ_of_le hrest
    | some s => exact Nat.succ_le_succ hrest

/-! ## Their order -/

/-- The better score comes first. -/
def ahead (h h' : Hit) : Bool := decide (h'.score ≤ h.score)

theorem ahead_trans (h₁ h₂ h₃ : Hit) (h : ahead h₁ h₂ = true) (h' : ahead h₂ h₃ = true) : ahead h₁ h₃ = true := by
  simp only [ahead, decide_eq_true_eq] at h h' ⊢
  omega

theorem ahead_total (h h' : Hit) : (ahead h h' || ahead h' h) = true := by
  simp only [ahead, Bool.or_eq_true, decide_eq_true_eq]
  omega

theorem rank_eq (hits : List Hit) : rank hits = hits.mergeSort ahead := rfl

/-- The ranking one hit at a time: each takes its place before the hits that are behind it in the listings and no better. -/
theorem rank_eq_foldr (hits : List Hit) : rank hits =
    hits.foldr (fun h hits => hits.filter (fun h' => !ahead h h') ++ h :: hits.filter (ahead h)) [] := by
  rw [rank_eq]
  induction hits with
  | nil => simp
  | cons h hits ih => rw [mergeSort_cons_eq ahead_trans ahead_total, ih, List.foldr_cons]

theorem rank_alone (query : Text) (e : Entry) : rank (hitsFrom query #[] [e]).1 = (alone query e).toList := by
  cases hs : (score query e.title #[]).1 <;> simp [rank, hitsFrom, alone, hs]

/-! ## Searches -/

/-- The entries that a search goes through. -/
def entries {κ : Type} [Keeper κ] : List Status → Job κ (List Entry)
  | [] => pure []
  | s :: ss => do
    let titles ← Work.list s
    return titles.map (⟨·, s⟩) ++ (← entries ss)

section keeper
variable {κ : Type} [Keeper κ] {c d : κ} {es : List Entry}

/-- To list and to score in turn gives the same as to list all entries first. -/
theorem gather_of_entries (query : Text) {ss : List Status} (b : Board) (h : entries ss c = (.ok es, d)) :
    gather query ss ⟨c, b⟩ = (.ok (hitsFrom query b es).1, ⟨d, (hitsFrom query b es).2⟩) := by
  induction ss generalizing c b es with
  | nil =>
    cases h
    rfl
  | cons s ss ih =>
    rw [entries] at h
    obtain ⟨titles, c', hlist, h⟩ := Job.of_bind_ok h
    obtain ⟨es', d', hrest, h⟩ := Job.of_bind_ok h
    cases h
    have hasking : asking (Work.list s) ⟨c, b⟩ = (.ok titles, ⟨c', b⟩) := by rw [asking_eq, hlist]
    rw [gather, Job.bind_of_ok hasking, Job.bind_of_ok (matching_eq query _ _), Job.bind_of_ok (ih _ hrest),
      hitsFrom_append]
    rfl

theorem search_of_entries (query : Text) (limit : Nat) (b : Board) (h : entries Status.all c = (.ok es, d)) :
    search query limit ⟨c, b⟩ = (.ok ((rank (hitsFrom query b es).1).take limit), ⟨d, (hitsFrom query b es).2⟩) := by
  rw [search, Job.bind_of_ok (gather_of_entries query b h)]
  rfl

/-- A new searcher begins on an empty board. -/
theorem run_eq {query : Text} {limit : Nat} (h : (entries Status.all c).1 = .ok es) :
    (run query limit c).1 = .ok ((rank (hitsFrom query #[] es).1).take limit) := by
  have hsearch := search_of_entries query limit #[] (Prod.ext h (Eq.refl (entries Status.all c).2))
  rw [run, hsearch]

end keeper

section run
variable {σ τ : Type} [Holdings σ] [Holdings τ]

/-- **A title in company.**  Let a search go through some entries and report them all.  A hit scores no less than it does
where its entry is the only one, and the same if its title is settled for the query.  If all titles are settled for it,
then a search that goes through some of the entries only, in the same order, has the same hits for them in the same
order. -/
theorem run_in_company (query : Text) {limit : Nat} {c : Catalog σ} {es : List Entry}
    (hes : (entries Status.all c).1 = .ok es) (hlimit : es.length ≤ limit) :
    ∃ hits, (run query limit c).1 = .ok hits ∧
      (∀ h ∈ hits, ∀ d : Catalog τ, (entries Status.all d).1 = .ok [⟨h.title, h.status⟩] →
        ∃ s, (run query limit d).1 = .ok [⟨h.title, h.status, s⟩] ∧ s ≤ h.score ∧
          (Settled query h.title → s = h.score)) ∧
      ((∀ e ∈ es, Settled query e.title) → ∀ (d : Catalog τ) (es' : List Entry),
        (entries Status.all d).1 = .ok es' → es'.Sublist es →
          ∃ hits', (run query limit d).1 = .ok hits' ∧ hits'.Sublist hits) := by
  have hall : ∀ es' : List Entry, es'.length ≤ limit →
      (rank (hitsFrom query #[] es').1).take limit = rank (hitsFrom query #[] es').1 := by
    intro es' hes'
    apply List.take_of_length_le
    rw [rank, List.length_mergeSort]
    exact Nat.le_trans (length_hitsFrom_le query es' #[]) hes'
  refine ⟨rank (hitsFrom query #[] es).1, by rw [run_eq hes, hall es hlimit], fun h hh d hd => ?_,
    fun hsettled d es' hd hsub => ?_⟩
  · have hh : h ∈ (hitsFrom query #[] es).1 := List.mem_mergeSort.1 hh
    obtain ⟨s, hs, hover⟩ := mem_hitsFrom Board.bounded_empty hh
    have hpos : 1 ≤ limit := by
      have := List.length_pos_of_mem hh
      have := length_hitsFrom_le query es #[]
      omega
    refine ⟨s, ?_, hover⟩
    rw [run_eq hd, hall [⟨h.title, h.status⟩] hpos, rank_alone, hs]
    rfl
  · refine ⟨rank (hitsFrom query #[] es').1, by rw [run_eq hd, hall es' (Nat.le_trans hsub.length_le hlimit)], ?_⟩
    have hsettled' : ∀ e ∈ es', Settled query e.title := fun e he => hsettled e (hsub.subset he)
    rw [rank_eq, rank_eq, hitsFrom_of_settled Board.bounded_empty hsettled,
      hitsFrom_of_settled Board.bounded_empty hsettled']
    exact mergeSort_sublist ahead_trans ahead_total (hsub.filterMap _)

end run

/-- A catalog in memory with some titles wanted, the first one written last. -/
def wanted (titles : List String) : Catalog Shelf := { holdings := ⟨(titles.map fun t => ⟨t.toList, .wanted⟩).reverse⟩ }

theorem entries_wanted (titles : List String) :
    (entries Status.all (wanted titles)).1 = .ok (titles.map fun t => ⟨t.toList, .wanted⟩) := by
  change Except.ok ((Shelf.titles _ _).map _ ++ ((Shelf.titles _ _).map _ ++ ((Shelf.titles _ _).map _ ++ []))) = _
  simp [wanted, Shelf.titles, List.filter_map, Function.comp_def]

theorem run_wanted (query : Text) (limit : Nat) (titles : List String) : (run query limit (wanted titles)).1 =
    .ok ((rank (hitsFrom query #[] (titles.map fun t => ⟨t.toList, .wanted⟩)).1).take limit) :=
  run_eq (entries_wanted titles)

/-- *Heat* is found as it would be alone, and the hits keep their order when *Heathers* is not there. -/
theorem run_in_company_heat :
    let query := "heat".toList
    let titles := ["Heathers", "The Heat", "Heat"]
    let heat : Hit := ⟨"Heat".toList, .wanted, 89⟩
    titles.length ≤ 10 ∧ (∀ t ∈ titles, Settled query t.toList) ∧
      (run query 10 (wanted ["Heat"])).1 = .ok [heat] ∧
      ∃ hits, (run query 10 (wanted titles)).1 = .ok hits ∧ heat ∈ hits ∧
        ∃ hits', (run query 10 (wanted ["The Heat", "Heat"])).1 = .ok hits' ∧ hits'.Sublist hits := by
  intro query titles heat
  have hsettled : ∀ t ∈ titles, Settled query t.toList := by decide
  obtain ⟨hits, hrun, halone, hless⟩ := @run_in_company Shelf Shelf _ _ query 10 _ _ (entries_wanted titles) (by decide)
  have hheat : heat ∈ hits := by
    rw [run_wanted, rank_eq_foldr, Except.ok.injEq] at hrun
    rw [← hrun]
    decide +kernel
  obtain ⟨s, hs, -, hsame⟩ := halone heat hheat (wanted ["Heat"]) (entries_wanted _)
  obtain ⟨hits', hrun', hsub⟩ := hless (by simpa using hsettled) (wanted ["The Heat", "Heat"]) _ (entries_wanted _)
    (by decide)
  refine ⟨by decide, hsettled, ?_, hits, hrun, hheat, hits', hrun', hsub⟩
  rw [hs, hsame (by decide)]

/-- *Eel* scores 69 alone, and after *Eel Pie*, which scores as much.  With *Eels!* between the two it scores 81 and
overtakes *Eel Pie*. -/
theorem eel_overtakes :
    let hit : String → Int → Hit := fun t s => ⟨t.toList, .wanted, s⟩
    let found : List String → Except Error (List Hit) := fun titles => (run "eel".toList 10 (wanted titles)).1
    found ["Eel"] = .ok [hit "Eel" 69] ∧ found ["Eel Pie"] = .ok [hit "Eel Pie" 69] ∧
      found ["Eel Pie", "Eel"] = .ok [hit "Eel Pie" 69, hit "Eel" 69] ∧
      found ["Eel Pie", "Eels!", "Eel"] = .ok [hit "Eels!" 81, hit "Eel" 81, hit "Eel Pie" 69] := by
  intro hit found
  simp only [found, run_wanted, rank_eq_foldr]
  decide +kernel

end Search
end WatchList
