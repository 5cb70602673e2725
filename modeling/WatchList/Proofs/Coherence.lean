import WatchList.Library
import WatchList.Pick
import WatchList.Upkeep
import WatchList.Proofs.Repetition
import WatchList.Proofs.Ordering
/-!
# Every way to read a catalog tells the same

A catalog is read in several ways: status by status, by its counts, as titles in normal form, sorted, and by a pick of
what to watch next.  All of them go back to its listings.  So they agree on every catalog that writes have made, also
where titles in it are no normal forms, fall together once they are brought into it, or name nothing.

* Each entry stands in the listing of its status, once, and in no other (`Catalog.Coherent.once`), so the counts add up
  to the number of entries.
* A shown listing has the name of each listed title at its first place (`Title.names_distinct`).
* The sorted listing has the same names, and what is picked is one of them.

The main statement is that a catalog filled from nothing is coherent, in memory as in a file (`Catalog.coherent_fill`).
-/
namespace WatchList

/-! ## Titles by their normal forms -/

namespace Title

/-- The names that titles have in normal form, each once and in the order in which it first comes up. -/
structure Names (raws shown : List Text) : Prop where
  nodup : shown.Nodup
  clean : ∀ t ∈ shown, Clean t
  mem : ∀ t, t ∈ shown ↔ t ≠ [] ∧ ∃ raw ∈ raws, normalize raw = t
  order : shown.Pairwise fun t u => (raws.map normalize).idxOf t < (raws.map normalize).idxOf u

/-- What is left of members that are picked, each once, comes in the order of their first places. -/
theorem pairwise_idxOf_distinct {α : Type} [BEq α] [LawfulBEq α] (pick : α → Bool) :
    ∀ as : List α, (distinctBy id (as.filter pick)).Pairwise fun a b => as.idxOf a < as.idxOf b
  | [] => .nil
  | a :: as => by
    have ih := pairwise_idxOf_distinct pick as
    have hlater : ∀ {l : List α}, (l.Pairwise fun b c => as.idxOf b < as.idxOf c) → (∀ b ∈ l, b ≠ a) →
        l.Pairwise fun b c => (a :: as).idxOf b < (a :: as).idxOf c := by
      intro l hl hne
      refine hl.imp_of_mem fun {b c} hb hc hbc => ?_
      rw [List.idxOf_cons_ne _ (hne b hb).symm, List.idxOf_cons_ne _ (hne c hc).symm]
      exact Nat.succ_lt_succ hbc
    cases ha : pick a with
    | false =>
      rw [List.filter_cons_of_neg (Bool.eq_false_iff.1 ha)]
      refine hlater ih fun b hb hba => ?_
      rw [mem_distinctBy_id, List.mem_filter, hba, ha] at hb
      cases hb.2
    | true =>
      have hothers : ∀ b ∈ (distinctBy id (as.filter pick)).filter (fun b => id b != id a), b ≠ a := by
        intro b hb
        simpa using (List.mem_filter.1 hb).2
      rw [List.filter_cons_of_pos ha, distinctBy, List.pairwise_cons]
      refine ⟨fun b hb => ?_, hlater (ih.filter _) hothers⟩
      rw [List.idxOf_cons_self, List.idxOf_cons_ne _ (hothers b hb).symm]
      exact Nat.succ_pos _

theorem mem_ofAll {raws : List Text} {t : Text} : t ∈ ofAll raws ↔ t ≠ [] ∧ ∃ raw ∈ raws, normalize raw = t := by
  rw [ofAll, List.mem_filter, List.mem_map, and_comm]
  simp

/-- **Distinct normal forms are the names of the titles.** -/
theorem names_distinct (raws : List Text) : Names raws (distinctBy id (ofAll raws)) := by
  have horder := pairwise_idxOf_distinct (fun t : Text => !t.isEmpty) (raws.map normalize)
  refine ⟨?_, fun t ht => clean_of_mem_ofAll (mem_distinctBy_id.1 ht), fun t => mem_distinctBy_id.trans mem_ofAll, horder⟩
  refine horder.imp fun hlt heq => ?_
  rw [heq] at hlt
  exact Nat.lt_irrefl _ hlt

end Title

/-! ## One catalog -/

/-- A catalog that holds the entries tells the same of them on every way of reading. -/
structure Catalog.Coherent {σ : Type} [Holdings σ] (c : Catalog σ) (es : List Entry) : Prop where
  lists : ∀ s, c.list s = .ok (Holdings.titles s c.holdings)
  /-- An entry is listed under its status, once, and nowhere else. -/
  once : ∀ e ∈ es, ∀ s, (Holdings.titles s c.holdings).count e.title = if s = e.status then 1 else 0
  /-- Nothing but entries is listed. -/
  only : ∀ s, ∀ t ∈ Holdings.titles s c.holdings, ⟨t, s⟩ ∈ es
  /-- The counts are the lengths of the listings, and add up to the number of entries. -/
  counts : ∃ n : Counts, Upkeep.counts c = (.ok n, c) ∧ n.wanted = (Holdings.titles .wanted c.holdings).length ∧
    n.seen = (Holdings.titles .seen c.holdings).length ∧ n.disliked = (Holdings.titles .disliked c.holdings).length ∧
    n.total = es.length
  /-- A listing is shown by its names, and sorted it shows the same ones. -/
  shows : ∀ word, ∃ shown, Library.list word c = (.ok shown, c) ∧
    Title.Names (Holdings.titles (Status.ofWord word) c.holdings) shown ∧
    ∀ order, ∃ sorted, Upkeep.sorted word order c = (.ok sorted, c) ∧ ∀ t, t ∈ sorted ↔ t ∈ shown
  /-- What is picked is the first of the shown titles, or any of them; there is none only if none is shown. -/
  picks : ∀ word shown, Status.ofWord word = .wanted → Library.list word c = (.ok shown, c) → ∀ chance,
    Pick.next .first chance c = (.ok shown.head?, c) ∧
    ∀ strategy, ∃ pick, Pick.next strategy chance c = (.ok pick, c) ∧ (pick = none ↔ shown = []) ∧
      ∀ t ∈ pick, t ∈ shown

section
variable {κ : Type} [Keeper κ] {c : κ} {titles : Status → List Text} (h : ∀ s, Work.list s c = (.ok (titles s), c))
include h

theorem Upkeep.counts_eq :
    Upkeep.counts c = (.ok ⟨(titles .wanted).length, (titles .seen).length, (titles .disliked).length⟩, c) := by
  rw [Upkeep.counts, Job.bind_of_ok (h .wanted), Job.bind_of_ok (h .seen), Job.bind_of_ok (h .disliked)]
  rfl

theorem Library.list_eq (word : Text) :
    Library.list word c = (.ok (distinctBy id (Title.ofAll (titles (Status.ofWord word)))), c) := by
  rw [Library.list, Job.bind_of_ok (h _)]
  rfl

theorem Upkeep.sorted_eq (word : Text) (order : SortOrder) :
    ∃ sorted, Upkeep.sorted word order c = (.ok sorted, c) ∧
      sorted.Perm (Title.ofAll (titles (Status.ofWord word))) := by
  obtain ⟨asc, hsorts, hup, hdown⟩ := Upkeep.sorted_of_list (h (Status.ofWord word))
  cases order with
  | ascending => exact ⟨asc, hup, hsorts.perm⟩
  | descending => exact ⟨asc.reverse, hdown, (List.reverse_perm asc).trans hsorts.perm⟩

theorem Pick.next_eq (strategy : PickStrategy) (chance : Nat) :
    Pick.next strategy chance c = (.ok (choose strategy chance (Title.ofAll (titles .wanted))), c) := by
  rw [Pick.next, Job.bind_of_ok (h _)]
  rfl

end

/-- A pick is one of the titles, and there is one if there are titles. -/
theorem Pick.choose_spec (strategy : PickStrategy) (chance : Nat) (ts : List Text) :
    (choose strategy chance ts = none ↔ ts = []) ∧ ∀ t ∈ choose strategy chance ts, t ∈ ts := by
  cases strategy with
  | first => exact ⟨List.head?_eq_none_iff, fun t ht => List.mem_of_head? ht⟩
  | random =>
    refine ⟨?_, fun t ht => List.mem_of_getElem? ht⟩
    cases ts with
    | nil => exact iff_of_true rfl rfl
    | cons t ts =>
      have hlt : chance % (t :: ts).length < (t :: ts).length := Nat.mod_lt _ (Nat.succ_pos _)
      refine iff_of_false ?_ (List.cons_ne_nil t ts)
      rw [choose, List.getElem?_eq_getElem hlt]
      exact Option.some_ne_none _

theorem count_listed {β : Type} [DecidableEq β] {key : Text → β} {es : List Entry} (h : (keys key es).Nodup) {e : Entry}
    (he : e ∈ es) (s : Status) : (listed s es).count e.title = if s = e.status then 1 else 0 := by
  split
  · rename_i hs
    exact List.count_eq_one_of_mem (nodup_listed h s) (mem_listed.2 (by rw [hs]; exact he))
  · rename_i hs
    refine List.count_eq_zero.2 fun hmem => hs ?_
    -- two entries of one title are one entry
    have heq : (⟨e.title, s⟩ : Entry) = e := List.inj_on_of_nodup_map h (mem_listed.1 hmem) he rfl
    exact congrArg Entry.status heq

namespace Holdings.View
variable {σ : Type} [Holdings σ] {β : Type} [DecidableEq β] {v : Holdings.View σ β}

/-- **A catalog that refuses no listing is coherent**, whatever it holds. -/
theorem coherent {c : Catalog σ} (hopen : ∀ s, c.faults.list s = none) {es fs : List Entry}
    (h : v.shows c.holdings es) (hperm : es.Perm fs) : c.Coherent fs := by
  have hok : ∀ s, c.list s = .ok (Holdings.titles s c.holdings) := fun s => by rw [Catalog.list, hopen]
  have hlist : ∀ s, Work.list s c = (.ok (Holdings.titles s c.holdings), c) := fun s =>
    congrArg (fun answer => (answer, c)) (hok s)
  have htitles := v.titles h
  refine ⟨hok, fun e he s => ?_, fun s t ht => ?_, ⟨_, Upkeep.counts_eq hlist, rfl, rfl, rfl, ?_⟩, fun word => ?_,
    fun word shown hword hshown chance => ?_⟩
  · rw [htitles]
    exact count_listed (v.nodup h) (hperm.mem_iff.2 he) s
  · rw [htitles] at ht
    exact hperm.mem_iff.1 (mem_listed.1 ht)
  · rw [Counts.total, htitles, htitles, htitles, ← hperm.length_eq]
    exact length_listed es
  · refine ⟨_, Library.list_eq hlist word, Title.names_distinct _, fun order => ?_⟩
    obtain ⟨sorted, hsorted, hsame⟩ := Upkeep.sorted_eq hlist word order
    exact ⟨sorted, hsorted, fun t => hsame.mem_iff.trans mem_distinctBy_id.symm⟩
  · rw [Library.list_eq hlist, hword] at hshown
    obtain rfl : distinctBy id (Title.ofAll (Holdings.titles .wanted c.holdings)) = shown :=
      Except.ok.inj (Prod.ext_iff.1 hshown).1
    rw [head?_distinctBy]
    refine ⟨Pick.next_eq hlist .first chance, fun strategy => ?_⟩
    obtain ⟨hnone, hmem⟩ := Pick.choose_spec strategy chance (Title.ofAll (Holdings.titles .wanted c.holdings))
    refine ⟨_, Pick.next_eq hlist strategy chance, hnone.trans ?_, fun t ht => mem_distinctBy_id.2 (hmem t ht)⟩
    rw [← List.head?_eq_none_iff, ← List.head?_eq_none_iff, head?_distinctBy]

end Holdings.View

/-! ## Catalogs filled from nothing -/

theorem Table.count_eq (t : Table) (s : Status) : t.count s = (t.titles s).length := by
  rw [Table.count, Table.titles, List.length_map, Table.newestFirst, List.length_mergeSort]

/-- **Every way to read a catalog tells the same.**  After any writes, of whatever titles, a catalog in memory tells the
same of its entries on every way of reading, and so does one in a file of its rows.  The counts of the one add up to
the number of its entries; those of the other are the numbers of rows that the file counts. -/
theorem Catalog.coherent_fill (ws : List (Text × Entry)) :
    let shelf : Shelf := Holdings.fill {} (ws.map Prod.snd)
    let table := Table.putAll {} ws
    let c : Catalog Shelf := { holdings := shelf }
    let d : Catalog Table := { holdings := table }
    (c.Coherent shelf.entries ∧ ∃ n, Upkeep.counts c = (.ok n, c) ∧ n.total = shelf.length) ∧
      d.Coherent (table.all.map Table.entryOf) ∧
      Upkeep.counts d = (.ok ⟨table.count .wanted, table.count .seen, table.count .disliked⟩, d) ∧
      table.total = table.all.length := by
  intro shelf table c d
  have hshelf : c.Coherent shelf.entries := by
    have hnone : (keys Text.lowercase []).Nodup := List.nodup_nil
    refine Holdings.View.coherent (v := Shelf.view) (fun _ => rfl) ⟨rfl, ?_⟩ (.refl _)
    rw [Shelf.entries_fill]
    exact nodup_keys_overwriteAll _ hnone _
  have htable : d.Coherent (table.all.map Table.entryOf) := by
    have hrecords := Table.records_putAll ws
    obtain ⟨ranked, hranked, hes⟩ := hrecords.ranked
    refine Holdings.View.coherent (v := Table.view) (fun _ => rfl) hrecords ?_
    rw [← hes]
    exact (hranked.perm.trans (List.mergeSort_perm table.rows _).symm).map _
  have hcounts : Upkeep.counts d = (.ok ⟨table.count .wanted, table.count .seen, table.count .disliked⟩, d) := by
    have hlist : ∀ s, Work.list s d = (.ok (table.titles s), d) := fun _ => rfl
    rw [Table.count_eq, Table.count_eq, Table.count_eq]
    exact Upkeep.counts_eq hlist
  obtain ⟨n, hn, -, -, -, htotal⟩ := htable.counts
  obtain rfl : n = ⟨table.count .wanted, table.count .seen, table.count .disliked⟩ :=
    Except.ok.inj (Prod.ext_iff.1 (hn.symm.trans hcounts)).1
  obtain ⟨m, hm, -, -, -, hlength⟩ := hshelf.counts
  exact ⟨⟨hshelf, m, hm, hlength⟩, htable, hcounts, htotal.trans (List.length_map _)⟩

end WatchList
