import WatchList.Proofs.Ledgers
import WatchList.Proofs.Turns
/-!
# Pruning

Entries that name no title are marked as disliked, one after the other as they are listed.  Their titles are written as
they are, so each write meets its own entry and no other (`overwriteAll_disliking`): the entry goes to the end, and the
others keep their places.

* Without an error all entries of the status that name no title are marked, and there is nothing left to prune.
* An error leaves the entries before the refused one marked, and everything else as it was (`Upkeep.prune_clears`).
-/
namespace WatchList

/-- The entry of the same title, disliked. -/
def Entry.disliking (e : Entry) : Entry := ⟨e.title, .disliked⟩

/-! ## Marking entries -/

section
variable {β : Type} [DecidableEq β] {key : Text → β} {es moved : List Entry}

/-- **To mark entries is to move them to the end.** -/
theorem overwriteAll_disliking (h : (keys key es).Nodup) (hmoved : ∀ e ∈ moved, e ∈ es) (hnodup : moved.Nodup) :
    overwriteAll key es (moved.map Entry.disliking) = es.filter (fun e => e ∉ moved) ++ moved.map Entry.disliking := by
  have hkeys : keys key (moved.map Entry.disliking) = keys key moved := List.map_map
  have hdistinct : (keys key (moved.map Entry.disliking)).Nodup := by
    rw [hkeys]
    exact hnodup.map_on fun e he e' he' heq => List.inj_on_of_nodup_map h (hmoved e he) (hmoved e' he') heq
  have hlatest : latestBy (fun w => key w.title) (moved.map Entry.disliking) = moved.map Entry.disliking := by
    rw [← overwriteAll_nil]
    exact overwriteAll_of_nodup key hdistinct
  rw [overwriteAll_eq, hlatest]
  congr 1
  refine List.filter_congr fun e he => ?_
  rw [untouched, hkeys, decide_eq_decide]
  refine not_congr ⟨fun hkey => ?_, fun hin => List.mem_map_of_mem hin⟩
  obtain ⟨e', he', heq⟩ := List.mem_map.1 hkey
  rwa [List.inj_on_of_nodup_map h he (hmoved e' he') heq.symm]

/-- Some entries were marked as disliked: they keep their spelling, and the others all they have and their order. -/
structure Marked (moved es es' : List Entry) : Prop where
  disliked : ∀ e ∈ moved, e.disliking ∈ es'
  others : es'.filter (fun e => e.title ∉ moved.map Entry.title) = es.filter fun e => e ∉ moved
  length : es'.length = es.length

/-- **Marked entries** stand at the end, disliked. -/
theorem marked_disliking (h : (keys key es).Nodup) (hmoved : ∀ e ∈ moved, e ∈ es) (hnodup : moved.Nodup) :
    Marked moved es (overwriteAll key es (moved.map Entry.disliking)) := by
  have hes : es.Nodup := List.Nodup.of_map _ h
  rw [overwriteAll_disliking h hmoved hnodup]
  refine ⟨fun e he => List.mem_append_right _ (List.mem_map_of_mem he), ?_, ?_⟩
  · have hend : (moved.map Entry.disliking).filter (fun e => e.title ∉ moved.map Entry.title) = [] := by
      refine List.filter_eq_nil_iff.2 fun e he => ?_
      obtain ⟨e', he', rfl⟩ := List.mem_map.1 he
      simpa using ⟨e', he', rfl⟩
    rw [List.filter_append, hend, List.append_nil, List.filter_filter]
    refine List.filter_congr fun e he => ?_
    -- an entry with the title of a marked one is that one
    have htitle : e.title ∈ moved.map Entry.title ↔ e ∈ moved := by
      refine ⟨fun hin => ?_, List.mem_map_of_mem⟩
      obtain ⟨e', he', heq⟩ := List.mem_map.1 hin
      rwa [eq_of_title_eq h he (hmoved e' he') heq.symm]
    simp [htitle]
  · have hperm : (es.filter fun e => e ∈ moved).Perm moved := by
      refine (List.perm_ext_iff_of_nodup (hes.filter _) hnodup).2 fun e => ?_
      simpa [List.mem_filter] using hmoved e
    have hsplit := (List.filter_append_perm (fun e => decide (e ∈ moved)) es).length_eq
    rw [List.length_append, hperm.length_eq] at hsplit
    rw [List.length_append, List.length_map, ← hsplit, Nat.add_comm]
    simp

end

/-! ## What is to be pruned -/

namespace Upkeep

/-- The entry has the status and names no title. -/
def nameless (s : Status) (e : Entry) : Bool := e.status == s && (Title.normalize e.title).isEmpty

/-- The entries that pruning a status marks, in the order of the listing. -/
def prunable (s : Status) (es : List Entry) : List Entry :=
  if s = .disliked then [] else es.reverse.filter (nameless s)

section
variable {s : Status} {es : List Entry}

theorem map_title_prunable (s : Status) (es : List Entry) :
    (if s = .disliked then [] else (listed s es).filter fun t => (Title.normalize t).isEmpty) =
      (prunable s es).map Entry.title := by
  unfold prunable listed
  split
  · rfl
  · rw [List.filter_map, List.filter_filter]
    congr 2
    funext e
    rw [Bool.and_comm]
    rfl

theorem mem_prunable (hs : s ≠ .disliked) {e : Entry} : e ∈ prunable s es ↔ e ∈ es ∧ nameless s e = true := by
  rw [prunable, if_neg hs, List.mem_filter, List.mem_reverse]

theorem prunable_subset : ∀ e ∈ prunable s es, e ∈ es := by
  intro e he
  unfold prunable at he
  split at he
  · cases he
  · exact List.mem_reverse.1 (List.mem_filter.1 he).1

theorem nodup_prunable (h : es.Nodup) : (prunable s es).Nodup := by
  unfold prunable
  split
  · exact .nil
  · exact (List.nodup_reverse.2 h).filter _

theorem length_prunable (hs : s ≠ .disliked) : (prunable s es).length = es.countP (nameless s) := by
  rw [prunable, if_neg hs, ← List.countP_eq_length_filter, List.countP_reverse]

end

/-- **After the entries are marked, none is left** that is to be pruned. -/
theorem prunable_overwriteAll {β : Type} [DecidableEq β] {key : Text → β} {s : Status} {es : List Entry}
    (h : (keys key es).Nodup) : prunable s (overwriteAll key es ((prunable s es).map Entry.disliking)) = [] := by
  by_cases hs : s = .disliked
  · rw [prunable, if_pos hs]
  rw [overwriteAll_disliking h prunable_subset (nodup_prunable (h.of_map _))]
  refine List.eq_nil_iff_forall_not_mem.2 fun e he => ?_
  obtain ⟨hmem, hnameless⟩ := (mem_prunable hs).1 he
  rcases List.mem_append.1 hmem with hleft | hmarked
  · obtain ⟨hes, hnot⟩ := List.mem_filter.1 hleft
    exact of_decide_eq_true hnot ((mem_prunable hs).2 ⟨hes, hnameless⟩)
  · obtain ⟨e', -, rfl⟩ := List.mem_map.1 hmarked
    have hstatus : e'.disliking.status = s := beq_iff_eq.1 (Bool.and_eq_true_iff.1 hnameless).1
    exact hs hstatus.symm

/-! ## Pruning -/

section
variable {σ : Type} [Holdings σ]

/-- Some of the entries that a catalog holds were marked as disliked, with one write each and no other. -/
structure Marks (entries : σ → List Entry) (moved : List Entry) (c d : Fickle σ) : Prop where
  written : d.written = c.written ++ moved.map Entry.disliking
  marked : Marked moved (entries c.holdings) (entries d.holdings)

/-- What `c` was asked for when pruning the status has marked the entries. -/
def askedFor (s : Status) (moved : List Entry) (c : Fickle σ) : List Request :=
  ((moved.map Entry.disliking).map .write).reverse ++ .list s :: c.asked

/-- How pruning the status named by `word` ends on the catalog `c`, whose entries `entries` reads off. -/
structure Prunes (entries : σ → List Entry) (word : Text) (c : Fickle σ) (answer : Except Error Nat) (d : Fickle σ) :
    Prop where
  /-- It ends in an error only if a request is refused. -/
  answers : (∀ asked, c.refuses asked = none) → ∃ n, answer = .ok n
  /-- Nothing is written among the disliked. -/
  idle : Status.ofWord word = .disliked → d.holdings = c.holdings ∧ d.written = c.written ∧ ∀ n, answer = .ok n → n = 0
  /-- All entries of another status that name no title are marked, and they are counted. -/
  clears : Status.ofWord word ≠ .disliked → ∀ n, answer = .ok n →
    n = (entries c.holdings).countP (nameless (Status.ofWord word)) ∧
      (entries d.holdings).countP (nameless (Status.ofWord word)) = 0 ∧
      Marks entries (prunable (Status.ofWord word) (entries c.holdings)) c d
  /-- To prune again changes nothing. -/
  again : ∀ n, answer = .ok n → d.refuses (.list (Status.ofWord word) :: d.asked) = none →
    prune word d = (.ok 0, d.noting (.list (Status.ofWord word)))
  /-- An error comes from the listing, or from the first entry of the listing whose write is refused: the entries before
  it are marked. -/
  stops : ∀ e, answer = .error e → c.refuses d.asked = some e ∧
    ∃ moved rest, prunable (Status.ofWord word) (entries c.holdings) = moved ++ rest ∧ Marks entries moved c d ∧
      ((moved = [] ∧ d.asked = .list (Status.ofWord word) :: c.asked) ∨
        ∃ x ∈ rest.head?, d.asked = .write x.disliking :: askedFor (Status.ofWord word) moved c)

variable {β : Type} [DecidableEq β]

/-- Pruning asks for the listing and then, in turn, for a write of each entry that is to be pruned. -/
theorem prune_inTurn (v : Holdings.View σ β) {c : Fickle σ} {es : List Entry} (h : v.shows c.holdings es) (word : Text)
    (hlist : c.refuses (.list (Status.ofWord word) :: c.asked) = none) :
    Fickle.InTurn (prunable (Status.ofWord word) es).length (c.noting (.list (Status.ofWord word)))
      ((prunable (Status.ofWord word) es).map Entry.disliking) (prune word c) := by
  have hblank := map_title_prunable (Status.ofWord word) es
  have hwrites : (prunable (Status.ofWord word) es).map Entry.disliking =
      ((prunable (Status.ofWord word) es).map Entry.title).map fun t => ⟨t, .disliked⟩ := by
    rw [List.map_map]
    rfl
  rw [prune, Job.bind_of_ok (Fickle.list_granted hlist), v.titles h]
  rw [hblank, List.length_map, hwrites]
  exact (Work.writeAll_inTurn .disliked _ _).map fun _ => (prunable (Status.ofWord word) es).length

/-- A catalog with nothing to prune stays as it is. -/
theorem prune_of_none (v : Holdings.View σ β) {c : Fickle σ} {es : List Entry} (h : v.shows c.holdings es) {word : Text}
    (hnone : prunable (Status.ofWord word) es = [])
    (hlist : c.refuses (.list (Status.ofWord word) :: c.asked) = none) :
    prune word c = (.ok 0, c.noting (.list (Status.ofWord word))) := by
  have hturn := prune_inTurn v h word hlist
  rw [hnone] at hturn
  generalize prune word c = outcome at hturn ⊢
  cases hturn with
  | all granted => simp
  | upTo done w rest e split granted refused => simp at split

/-- The requests after the listing mark the entries that they are about. -/
theorem marks_granting (l : Holdings.Ledger σ β) {c : Fickle σ} {es moved : List Entry} (h : l.shows c.holdings es)
    (hmoved : ∀ e ∈ moved, e ∈ es) (hnodup : moved.Nodup) {d : Fickle σ}
    (hwritten : d.written = c.written ++ moved.map Entry.disliking)
    (hheld : d.holdings = Holdings.fill c.holdings (moved.map Entry.disliking)) : Marks l.entries moved c d := by
  refine ⟨hwritten, ?_⟩
  rw [hheld, l.entries_eq h, l.entries_eq (l.fill _ h)]
  exact marked_disliking (l.nodup h) hmoved hnodup

/-- When no request is refused, all entries that are to be pruned are marked. -/
theorem prunes_all (l : Holdings.Ledger σ β) {c : Fickle σ} {es : List Entry} (h : l.shows c.holdings es)
    (word : Text) : Prunes l.entries word c (.ok (prunable (Status.ofWord word) es).length)
      ((c.noting (.list (Status.ofWord word))).granting ((prunable (Status.ofWord word) es).map Entry.disliking)) := by
  have hafter := l.fill ((prunable (Status.ofWord word) es).map Entry.disliking) h
  have hleft : prunable (Status.ofWord word) _ = [] := prunable_overwriteAll (l.nodup h)
  refine ⟨fun _ => ⟨_, rfl⟩, fun hs => ?_, fun hs n hn => ?_, fun n _ hlist => prune_of_none l.toView hafter hleft hlist,
    fun e he => by cases he⟩
  · have hnone : prunable (Status.ofWord word) es = [] := if_pos hs
    rw [hnone, List.map_nil, Fickle.granting_nil]
    refine ⟨rfl, rfl, fun n hn => ?_⟩
    cases hn
    rfl
  · cases hn
    have hread : l.entries (Holdings.fill c.holdings _) = _ := l.entries_eq hafter
    rw [l.entries_eq h]
    refine ⟨length_prunable hs, ?_, marks_granting l h prunable_subset (nodup_prunable (l.nodup h).of_map) rfl rfl⟩
    rw [Fickle.granting, Fickle.noting, hread, ← length_prunable hs, hleft, List.length_nil]

/-- When the listing is refused, nothing is marked. -/
theorem prunes_unlisted (l : Holdings.Ledger σ β) {c : Fickle σ} {es : List Entry} (h : l.shows c.holdings es)
    (word : Text) {e : Error} (hlist : c.refuses (.list (Status.ofWord word) :: c.asked) = some e) :
    Prunes l.entries word c (.error e) (c.noting (.list (Status.ofWord word))) := by
  refine ⟨fun hnone => ?_, fun _ => ⟨rfl, rfl, fun n hn => ?_⟩, fun _ n hn => ?_, fun n hn => ?_, fun e' he => ?_⟩
  · rw [hnone] at hlist
    cases hlist
  · cases hn
  · cases hn
  · cases hn
  · cases he
    have hmarks : Marks l.entries [] c (c.noting (.list (Status.ofWord word))) :=
      marks_granting l h (List.forall_mem_nil _) .nil (List.append_nil _).symm rfl
    exact ⟨hlist, [], _, rfl, hmarks, .inl ⟨rfl, rfl⟩⟩

/-- **Pruning clears the entries that name no title**, up to the first whose write is refused. -/
theorem prunes (l : Holdings.Ledger σ β) {c : Fickle σ} {es : List Entry} (h : l.shows c.holdings es)
    (word : Text) : Prunes l.entries word c (prune word c).1 (prune word c).2 := by
  cases hlist : c.refuses (.list (Status.ofWord word) :: c.asked) with
  | some e =>
    have hprune : prune word c = (.error e, c.noting (.list (Status.ofWord word))) :=
      Job.bind_of_error (Fickle.list_refused hlist)
    rw [hprune]
    exact prunes_unlisted l h word hlist
  | none =>
    have hturn := prune_inTurn l.toView h word hlist
    generalize prune word c = outcome at hturn ⊢
    cases hturn with
    | all granted => exact prunes_all l h word
    | upTo done w rest e split granted refused =>
      obtain ⟨moved, xs, hsplit, rfl, hxs⟩ := List.map_eq_append_iff.1 split
      obtain ⟨x, behind, rfl, rfl, rfl⟩ := List.map_eq_cons_iff.1 hxs
      have hmoved : moved.Sublist (prunable (Status.ofWord word) es) := hsplit ▸ List.sublist_append_left _ _
      have hnodup : moved.Nodup := (nodup_prunable (l.nodup h).of_map).sublist hmoved
      refine ⟨fun hnone => ?_, fun hs => ?_, fun _ n hn => ?_, fun n hn => ?_, fun e' he => ?_⟩
      · cases (hnone _).symm.trans refused
      · rw [prunable, if_pos hs] at hsplit
        cases (List.append_eq_nil_iff.1 hsplit.symm).2
      · cases hn
      · cases hn
      · cases he
        refine ⟨refused, moved, x :: behind, by rw [l.entries_eq h, hsplit], ?_, .inr ⟨x, rfl, rfl⟩⟩
        exact marks_granting l h (fun e he => prunable_subset e (hmoved.subset he)) hnodup rfl rfl

end

/-- **Pruning clears the entries that name no title.**  Let a catalog, in memory or in a file, hold each title once, and let
it refuse requests as it likes.  Pruning marks the entries of the status that name no title, each by itself and in the
order of the listing, up to the first whose write is refused; all other entries stay as they are, in their order. -/
theorem prune_clears (word : Text) :
    (∀ c : Fickle Shelf, (keys Text.lowercase c.holdings.entries).Nodup →
      Prunes Shelf.entries word c (prune word c).1 (prune word c).2) ∧
    ∀ c : Fickle Table, (c.holdings.rows.Pairwise fun r r' => ¬ Table.same r.title r'.title) →
      Prunes Table.entries word c (prune word c).1 (prune word c).2 :=
  ⟨fun _ hc => prunes Shelf.ledger (Shelf.shows_entries hc) word,
    fun _ hc => prunes Table.ledger (Table.shows_entries hc) word⟩

/-- Of two entries without a title the one that was written last is marked, and the write of the other is refused.  From a
file that refuses nothing both of two are cleared. -/
theorem prune_clears_refused :
    let c : Fickle Shelf := {
      holdings := ⟨[⟨"''".toList, .wanted⟩, ⟨"Heat".toList, .wanted⟩, ⟨[], .wanted⟩, ⟨"\" \"".toList, .wanted⟩]⟩
      refuses := fun asked => if asked.length = 3 then some (.storage "disk full".toList) else none }
    let d : Fickle Table := {
      holdings := {
        rows := [⟨" ".toList, .seen, [], 1⟩, ⟨"Heat".toList, .seen, [], 2⟩, ⟨"\"\"".toList, .seen, [], 3⟩] }
      refuses := fun _ => none }
    (prune "wanted".toList c).1 = .error (.storage "disk full".toList) ∧
      (prune "wanted".toList c).2.holdings.entries =
        [⟨"''".toList, .wanted⟩, ⟨"Heat".toList, .wanted⟩, ⟨[], .wanted⟩, ⟨"\" \"".toList, .disliked⟩] ∧
      (keys Text.lowercase c.holdings.entries).Nodup ∧
      Prunes Shelf.entries "wanted".toList c (prune "wanted".toList c).1 (prune "wanted".toList c).2 ∧
      (prune "watched".toList d).1 = .ok 2 ∧
      (d.holdings.rows.Pairwise fun r r' => ¬ Table.same r.title r'.title) ∧
      Prunes Table.entries "watched".toList d (prune "watched".toList d).1 (prune "watched".toList d).2 := by
  intro c d
  have hrun : (prune "wanted".toList c).1 = .error (.storage "disk full".toList) ∧
      (prune "wanted".toList c).2.holdings.entries =
        [⟨"''".toList, .wanted⟩, ⟨"Heat".toList, .wanted⟩, ⟨[], .wanted⟩, ⟨"\" \"".toList, .disliked⟩] := by
    decide +kernel
  have hc : (keys Text.lowercase c.holdings.entries).Nodup := by decide +kernel
  have hd : d.holdings.rows.Pairwise fun r r' => ¬ Table.same r.title r'.title := by decide +kernel
  have hfile := (prune_clears "watched".toList).2 d hd
  obtain ⟨n, hn⟩ := hfile.answers fun _ => rfl
  have htwo : d.holdings.entries.countP (nameless .seen) = 2 := by
    rw [Table.entries, List.countP_reverse, List.countP_map, Table.newestFirst, (List.mergeSort_perm _ _).countP_eq]
    decide +kernel
  have hcount : n = 2 := (hfile.clears (by decide) n hn).1.trans htwo
  exact ⟨hrun.1, hrun.2, hc, (prune_clears "wanted".toList).1 c hc, hn.trans (congrArg _ hcount), hd, hfile⟩

end Upkeep
end WatchList
