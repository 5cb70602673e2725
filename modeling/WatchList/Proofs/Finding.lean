import WatchList.Proofs.Company
import WatchList.Proofs.Ledgers
/-!
# What a search finds

A title is found when it holds the characters of the query in their order, the case of ASCII letters aside (`Found`).  A
search gathers the entries that are found, sorts them by their scores and cuts them off last.  The sort is stable, so hits
of one score stay in the order in which the entries are gone through: status by status, and within a status from the one
that was written last to the first (`Before`).  None of this depends on what the scores are, nor on the board that a
searcher begins on.

* The hits are the best of the entries that are found, as many as the limit allows, each once (`Finds`).
* A lower limit leaves a beginning of them.  That is so for one board: between two searches of one searcher the board, and
  with it a score, may have changed.  It has changed no score if the titles are settled for the query (`Searched.settled`).
-/
namespace WatchList

def Hit.entry (h : Hit) : Entry := ⟨h.title, h.status⟩

namespace Search

/-! ## What is found -/

/-- The title of the entry holds the characters of the query in their order, the case of ASCII letters aside. -/
def Found (query : Text) (e : Entry) : Prop := query.asciiLower.Sublist e.title.asciiLower

instance (query : Text) : DecidablePred (Found query) := fun e =>
  inferInstanceAs (Decidable (query.asciiLower.Sublist e.title.asciiLower))

/-- To take each character as early as it can be misses no match. -/
theorem isSome_places : ∀ (start : Nat) (query title : Text),
    (places start query title).isSome = query.asciiLower.isSublist title.asciiLower
  | _, [], title => by cases title <;> rfl
  | _, _ :: _, [] => rfl
  | start, q :: qs, c :: t => by
    have hstep : (Text.asciiLower (q :: qs)).isSublist (Text.asciiLower (c :: t)) =
        if sameLetter q c then (Text.asciiLower qs).isSublist (Text.asciiLower t)
        else (Text.asciiLower (q :: qs)).isSublist (Text.asciiLower t) := rfl
    rw [hstep, places]
    split
    · rw [Option.isSome_map, isSome_places]
    · rw [isSome_places]

/-- A title has a score when it is found, on whatever board. -/
theorem isSome_score (query : Text) (e : Entry) (b : Board) : (score query e.title b).1.isSome = decide (Found query e) := by
  have hplaces : (places 0 query e.title).isSome = decide (Found query e) := by
    rw [isSome_places, Bool.eq_iff_iff, List.isSublist_iff_sublist, decide_eq_true_iff, Found]
  rw [← hplaces, score]
  split <;> simp [*]

/-- **The hits are the entries that are found**, in the order in which they are gone through. -/
theorem map_entry_hitsFrom (query : Text) : ∀ (es : List Entry) (b : Board),
    (hitsFrom query b es).1.map Hit.entry = es.filter fun e => Found query e
  | [], _ => rfl
  | e :: es, b => by
    have hscore := isSome_score query e b
    rw [hitsFrom_cons]
    cases hs : (score query e.title b).1 with
    | none =>
      rw [hs] at hscore
      rw [List.filter_cons_of_neg (by simp [← hscore])]
      exact map_entry_hitsFrom query es _
    | some s =>
      rw [hs] at hscore
      rw [List.filter_cons_of_pos (by simp [← hscore])]
      exact congrArg (e :: ·) (map_entry_hitsFrom query es _)

/-! ## The boards of searchers -/

/-- A board that titles have been scored on, for whatever queries.  A new searcher has an empty one. -/
inductive Used : Board → Prop where
  | new : Used #[]
  | after {b : Board} (h : Used b) (query title : Text) : Used (score query title b).2

theorem Used.bounded {b : Board} (h : Used b) : b.Bounded := by
  induction h with
  | new => exact Board.bounded_empty
  | after _ query title ih => exact score_bounded ih query title

theorem Used.hitsFrom {b : Board} (h : Used b) (query : Text) (es : List Entry) : Used (hitsFrom query b es).2 := by
  induction es generalizing b with
  | nil => exact h
  | cons e es ih =>
    rw [hitsFrom_cons]
    exact ih (h.after query e.title)

theorem Used.gather {κ : Type} [Keeper κ] {s : Searcher κ} (h : Used s.board) (query : Text) (ss : List Status) :
    Used (gather query ss s).2.board := by
  induction ss generalizing s with
  | nil => exact h
  | cons status ss ih =>
    have hasking := asking_eq (Work.list status) s
    rcases hlist : Work.list status s.keeper with ⟨e | titles, keeper⟩
    · rw [hlist] at hasking
      rw [Search.gather, Job.bind_of_error hasking]
      exact h
    · rw [hlist] at hasking
      rw [Search.gather, Job.bind_of_ok hasking, Job.bind_of_ok (matching_eq query _ _), Job.snd_bind_pure]
      exact ih (h.hitsFrom query _)

/-- **A search leaves a used board again**, whether its listings were answered or one was refused. -/
theorem Used.search {κ : Type} [Keeper κ] {s : Searcher κ} (h : Used s.board) (query : Text) (limit : Nat) :
    Used (search query limit s).2.board := by
  rw [Search.search, Job.snd_bind_pure]
  exact h.gather query Status.all

/-! ## The order in which entries are gone through -/

/-- The entries of a catalog, as a search goes through them. -/
def inOrder (es : List Entry) : List Entry := Status.all.flatMap fun s => es.reverse.filter fun e => e.status == s

/-- The one entry is gone through before the other: its status comes first, or it was written later under the same. -/
def Before (es : List Entry) (e e' : Entry) : Prop :=
  Status.all.idxOf e.status < Status.all.idxOf e'.status ∨ e.status = e'.status ∧ [e', e].Sublist es

theorem map_listed (s : Status) (es : List Entry) :
    (listed s es).map (⟨·, s⟩) = es.reverse.filter fun e => e.status == s := by
  rw [listed, List.map_map]
  refine (List.map_congr_left fun e he => ?_).trans (List.map_id _)
  have hs : e.status = s := beq_iff_eq.1 (List.mem_filter.1 he).2
  rw [← hs]
  rfl

theorem entries_eq {κ : Type} [Keeper κ] {c : κ} {es : List Entry} (h : ∀ s, Work.list s c = (.ok (listed s es), c)) :
    ∀ ss : List Status, entries ss c = (.ok (ss.flatMap fun s => es.reverse.filter fun e => e.status == s), c)
  | [] => rfl
  | s :: ss => by
    rw [entries, Job.bind_of_ok (h s), Job.bind_of_ok (entries_eq h ss), map_listed]
    rfl

theorem perm_inOrder (es : List Entry) : (inOrder es).Perm es := by
  refine List.perm_iff_count.2 fun e => ?_
  have hcount : ∀ s, (es.reverse.filter fun e => e.status == s).count e = if e.status = s then es.count e else 0 := by
    intro s
    split
    · rename_i hs
      rw [List.count_filter (p := fun e : Entry => e.status == s) (beq_iff_eq.2 hs), List.count_reverse]
    · rename_i hs
      exact List.count_eq_zero.2 fun hmem => hs (beq_iff_eq.1 (List.mem_filter.1 hmem).2)
  have hsum : (inOrder es).count e = (Status.all.map fun s => if e.status = s then es.count e else 0).sum := by
    rw [inOrder, List.count_flatMap]
    exact congrArg List.sum (List.map_congr_left fun s _ => hcount s)
  rw [hsum]
  cases e.status <;> simp [Status.all]

/-- **Entries are gone through status by status, the last written first.** -/
theorem pairwise_inOrder (es : List Entry) : (inOrder es).Pairwise (Before es) := by
  have hlater : es.reverse.Pairwise fun e e' => [e', e].Sublist es :=
    List.pairwise_reverse.2 (List.pairwise_iff_forall_sublist.2 id)
  have hstatus : Status.all.Pairwise fun s s' => Status.all.idxOf s < Status.all.idxOf s' := by decide
  refine List.pairwise_flatMap.2 ⟨fun s _ => ?_, hstatus.imp fun hlt e he e' he' => .inl ?_⟩
  · refine List.Pairwise.imp_of_mem (fun {e e'} he he' hsub => .inr ⟨?_, hsub⟩) (hlater.filter fun e => e.status == s)
    rw [beq_iff_eq.1 (List.mem_filter.1 he).2, beq_iff_eq.1 (List.mem_filter.1 he').2]
  · rwa [beq_iff_eq.1 (List.mem_filter.1 he).2, beq_iff_eq.1 (List.mem_filter.1 he').2]

/-! ## Searches -/

/-- What the hits of a search are, on a catalog with the entries. -/
structure Finds (es : List Entry) (query : Text) (limit : Nat) (hits : List Hit) : Prop where
  count : hits.length = min limit (es.countP fun e => Found query e)
  found : ∀ h ∈ hits, h.entry ∈ es ∧ Found query h.entry
  once : (hits.map Hit.entry).Nodup
  best : hits.Pairwise fun h h' => h'.score ≤ h.score
  stable : hits.Pairwise fun h h' => h.score = h'.score → Before es h.entry h'.entry

/-- The ranked entries up to a limit are what is to be found. -/
theorem finds_rank {es : List Entry} (h : es.Nodup) (query : Text) (limit : Nat) (board : Board) :
    Finds es query limit ((rank (hitsFrom query board (inOrder es)).1).take limit) := by
  have hentries := map_entry_hitsFrom query (inOrder es) board
  have hrank : (rank (hitsFrom query board (inOrder es)).1).Perm (hitsFrom query board (inOrder es)).1 :=
    List.mergeSort_perm _ _
  have hperm : ((rank (hitsFrom query board (inOrder es)).1).map Hit.entry).Perm (es.filter fun e => Found query e) := by
    refine (hrank.map _).trans ?_
    rw [hentries]
    exact (perm_inOrder es).filter _
  have horder : (hitsFrom query board (inOrder es)).1.Pairwise fun h h' => Before es h.entry h'.entry := by
    refine List.pairwise_map.1 ?_
    rw [hentries]
    exact (pairwise_inOrder es).filter _
  have hsorted := (pairwise_mergeSort_of_pairwise ahead_trans ahead_total horder).sublist (List.take_sublist limit _)
  refine ⟨?_, fun hit hhit => ?_, ?_, hsorted.imp fun hs => of_decide_eq_true hs.1, hsorted.imp fun hs heq => hs.2 ?_⟩
  · rw [List.length_take, ← List.length_map Hit.entry, hperm.length_eq, List.countP_eq_length_filter]
  · have hmem := hperm.mem_iff.1 (List.mem_map_of_mem (List.mem_of_mem_take hhit))
    simpa using List.mem_filter.1 hmem
  · rw [List.map_take]
    exact (hperm.nodup_iff.2 (h.filter _)).sublist (List.take_sublist _ _)
  · simp [ahead, heq]

/-- A search that begins on `board` and leaves `left`; the catalog holds the entries and stays as it is. -/
structure Searched {σ : Type} [Holdings σ] (c : Catalog σ) (es : List Entry) (query : Text) (limit : Nat)
    (board : Board) (hits : List Hit) (left : Board) : Prop where
  answers : search query limit ⟨c, board⟩ = (.ok hits, ⟨c, left⟩)
  finds : Finds es query limit hits
  /-- From the same board a lower limit leaves the first of the hits. -/
  fewer : ∀ n ≤ limit, search query n ⟨c, board⟩ = (.ok (hits.take n), ⟨c, left⟩)
  used : Used board → Used left
  /-- If all titles are settled for the query, it does so from any other board of a searcher as well. -/
  settled : (∀ e ∈ es, Settled query e.title) → Used board → ∀ other, Used other → ∀ n ≤ limit,
    (search query n ⟨c, other⟩).1 = .ok (hits.take n)

/-- A search on a catalog that refuses no listing. -/
theorem searched_ledger {σ β : Type} [Holdings σ] [DecidableEq β] (l : Holdings.Ledger σ β) {c : Catalog σ}
    {es : List Entry} (hopen : ∀ s, c.faults.list s = none) (h : l.shows c.holdings es) (query : Text) (limit : Nat)
    (board : Board) : ∃ hits left, Searched c es query limit board hits left := by
  have hlist : ∀ s, Work.list s c = (.ok (listed s es), c) := by
    intro s
    have hok : c.list s = .ok (listed s es) := by rw [Catalog.list, hopen, l.titles h]
    exact congrArg (fun answer => (answer, c)) hok
  have hentries : entries Status.all c = (.ok (inOrder es), c) := entries_eq hlist Status.all
  have hsearch : ∀ n b, search query n ⟨c, b⟩ =
      (.ok ((rank (hitsFrom query b (inOrder es)).1).take n), ⟨c, (hitsFrom query b (inOrder es)).2⟩) :=
    fun n b => search_of_entries query n b hentries
  refine ⟨_, _, hsearch limit board, finds_rank (l.nodup h).of_map query limit board, fun n hn => ?_,
    fun hused => ?_, fun hsettled hused other hother n hn => ?_⟩
  · rw [hsearch, List.take_take, Nat.min_eq_left hn]
  · have hleft : Used (search query limit ⟨c, board⟩).2.board := hused.search query limit
    rwa [hsearch] at hleft
  · have hsettled' : ∀ e ∈ inOrder es, Settled query e.title := fun e he => hsettled e ((perm_inOrder es).mem_iff.1 he)
    rw [hsearch, hitsFrom_of_settled hother.bounded hsettled', hitsFrom_of_settled hused.bounded hsettled',
      List.take_take, Nat.min_eq_left hn]

/-- **A search finds the best of what matches.**  Let a catalog, in memory or in a file, hold each title once, and let it
refuse no listing.  Whatever board a searcher begins on, its search leaves the catalog as it is and has for hits the
entries that are found, each once and with its status, as many as the limit allows: the better scores first, and of one
score in the order in which they are gone through.  With a lower limit it has the first of these hits, from the same
board, or from another one if the titles are settled for the query. -/
theorem search_finds (query : Text) (limit : Nat) (board : Board) :
    (∀ c : Catalog Shelf, (∀ s, c.faults.list s = none) → (keys Text.lowercase c.holdings.entries).Nodup →
      ∃ hits left, Searched c c.holdings.entries query limit board hits left) ∧
    ∀ c : Catalog Table, (∀ s, c.faults.list s = none) →
      (c.holdings.rows.Pairwise fun r r' => ¬ Table.same r.title r'.title) →
        ∃ hits left, Searched c c.holdings.entries query limit board hits left :=
  ⟨fun _ hopen hc => searched_ledger Shelf.ledger hopen (Shelf.shows_entries hc) query limit board,
    fun _ hopen hc => searched_ledger Table.ledger hopen (Table.shows_entries hc) query limit board⟩

/-- In the first search of a searcher *Eel* comes second to *e e l*, and in the next one before it, since the query is
fragile.  For *heat*, which is not, a searcher with the same board finds what a new one finds. -/
theorem search_finds_eel :
    let eel : Int → Hit := fun score => ⟨"Eel".toList, .wanted, score⟩
    let spread : Hit := ⟨"e e l".toList, .wanted, 71⟩
    let c : Catalog Shelf := { holdings := ⟨[⟨"e e l".toList, .wanted⟩, ⟨"Eel".toList, .wanted⟩]⟩ }
    let d : Catalog Table := { holdings := {
      rows := [⟨"Heat".toList, .seen, [], 2⟩, ⟨"Dune".toList, .seen, [], 3⟩, ⟨"The Heat".toList, .seen, [], 1⟩] } }
    (keys Text.lowercase c.holdings.entries).Nodup ∧
    (d.holdings.rows.Pairwise fun r r' => ¬ Table.same r.title r'.title) ∧
    ∃ left, Used left ∧ search "eel".toList 2 ⟨c, #[]⟩ = (.ok [spread, eel 69], ⟨c, left⟩) ∧
      (∃ left', Searched c c.holdings.entries "eel".toList 2 left [eel 81, spread] left') ∧
      ∃ hits left', Searched d d.holdings.entries "heat".toList 2 left hits left' ∧
        (search "heat".toList 1 ⟨d, #[]⟩).1 = .ok (hits.take 1) := by
  intro eel spread c d
  let es : List Entry := [⟨"Eel".toList, .wanted⟩, ⟨"e e l".toList, .wanted⟩]
  let left : Board := (hitsFrom "eel".toList #[] es).2
  have hc : (keys Text.lowercase c.holdings.entries).Nodup := by decide
  have hd : d.holdings.rows.Pairwise fun r r' => ¬ Table.same r.title r'.title := by decide
  have hsettled : ∀ e ∈ d.holdings.entries, Settled "heat".toList e.title := by
    intro e he
    obtain ⟨r, hr, rfl⟩ := List.mem_map.1 (List.mem_reverse.1 he)
    have hrows : ∀ r ∈ d.holdings.rows, Settled "heat".toList r.title := by decide
    exact hrows r (List.mem_mergeSort.1 hr)
  have hused : Used left := Used.new.hitsFrom "eel".toList es
  have hentries : entries Status.all c = (.ok es, c) := rfl
  have hfirst : (rank (hitsFrom "eel".toList #[] es).1).take 2 = [spread, eel 69] := by
    rw [rank_eq_foldr]
    decide +kernel
  have hsecond : (rank (hitsFrom "eel".toList left es).1).take 2 = [eel 81, spread] := by
    rw [rank_eq_foldr]
    decide +kernel
  obtain ⟨found, left', hfound⟩ := (search_finds "eel".toList 2 left).1 c (fun _ => rfl) hc
  have hanswers := hfound.answers
  rw [search_of_entries _ _ _ hentries, hsecond] at hanswers
  obtain rfl : [eel 81, spread] = found := Except.ok.inj (congrArg Prod.fst hanswers)
  obtain ⟨hits, left'', hhits⟩ := (search_finds "heat".toList 2 left).2 d (fun _ => rfl) hd
  refine ⟨hc, hd, left, hused, ?_, ⟨left', hfound⟩, hits, left'', hhits,
    hhits.settled hsettled hused #[] .new 1 (by decide)⟩
  rw [search_of_entries _ _ _ hentries, hfirst]

end Search
end WatchList
