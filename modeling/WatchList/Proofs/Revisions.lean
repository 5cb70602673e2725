import WatchList.Catalog.Table
import WatchList.Proofs.History
/-!
# The rows of a table in the order of their revisions

A table keeps its rows where their titles first came in; the revisions say in which order they were last written.  Read
in that order the rows are a list of entries (`Records`), and a write overwrites that list (`Records.put`): so a table
that starts empty is what its history leaves under the table's own key (`records_putAll`), and its listings are those of
that list (`Records.titles`).
-/
namespace WatchList
namespace Table

/-- What of a title tells it from others. -/
def key (t : Text) : Nat × Text := (t.size, (comparedPart t).asciiLower)

theorem same_iff (s t : Text) : same s t = true ↔ key s = key t := by
  simp [same, key, Text.sameAscii]

def entryOf (r : Row) : Entry := ⟨r.title, r.status⟩

/-! ## Ranked rows -/

/-- The rows in rising order of their revisions. -/
structure Ranked (rows ranked : List Row) : Prop where
  perm : ranked.Perm rows
  rising : ranked.Pairwise fun r r' => r.revision < r'.revision

theorem Ranked.filter {rows ranked : List Row} (h : Ranked rows ranked) (p : Row → Bool) :
    Ranked (rows.filter p) (ranked.filter p) := ⟨h.perm.filter p, h.rising.filter p⟩

theorem Ranked.newestFirst {rows ranked : List Row} (h : Ranked rows ranked) :
    newestFirst rows = ranked.reverse := by
  have hle : (Table.newestFirst rows).Pairwise fun r r' => r'.revision ≤ r.revision := by
    refine (List.pairwise_mergeSort ?_ ?_ rows).imp fun hr => by simpa using hr
    · intro a b c hab hbc
      simp only [decide_eq_true_eq] at *
      omega
    · intro a b
      simp only [Bool.or_eq_true, decide_eq_true_eq]
      omega
  have hge : ranked.reverse.Pairwise fun r r' => r'.revision ≤ r.revision :=
    List.pairwise_reverse.2 (h.rising.imp Nat.le_of_lt)
  have hperm : (Table.newestFirst rows).Perm ranked.reverse :=
    (List.mergeSort_perm rows _).trans (h.perm.symm.trans (List.reverse_perm ranked).symm)
  -- two rows of one revision are one row
  have hinj : (ranked.map Row.revision).Nodup := List.pairwise_map.2 (h.rising.imp Nat.ne_of_lt)
  refine hperm.eq_of_pairwise (fun a b ha hb hab hba => ?_) hle hge
  have ha' : a ∈ ranked := List.mem_reverse.1 (hperm.mem_iff.1 ha)
  exact List.inj_on_of_nodup_map hinj ha' (List.mem_reverse.1 hb) (Nat.le_antisymm hba hab)

theorem le_lastRevision {rows : List Row} {r : Row} (h : r ∈ rows) : r.revision ≤ lastRevision rows := by
  have hmax : ∀ (ns : List Nat) (m : Nat), m ≤ ns.foldl max m ∧ ∀ n ∈ ns, n ≤ ns.foldl max m := by
    intro ns
    induction ns with
    | nil => exact fun m => ⟨Nat.le_refl m, fun n hn => absurd hn List.not_mem_nil⟩
    | cons k ns ih =>
      intro m
      obtain ⟨hm, hns⟩ := ih (max m k)
      rw [List.foldl_cons]
      refine ⟨by omega, fun n hn => ?_⟩
      rcases List.mem_cons.1 hn with rfl | hn
      · omega
      · exact hns n hn
  exact (hmax _ 0).2 _ (List.mem_map_of_mem h)

theorem Ranked.concat {rows ranked : List Row} (h : Ranked rows ranked) (row : Row)
    (hrow : ∀ r ∈ rows, r.revision < row.revision) : Ranked (rows ++ [row]) (ranked ++ [row]) where
  perm := h.perm.append_right [row]
  rising := List.pairwise_append.2 ⟨h.rising, List.pairwise_singleton _ _,
    fun r hr r' hr' => by rw [List.mem_singleton.1 hr']; exact hrow r (h.perm.mem_iff.1 hr)⟩

/-! ## One write -/

section
variable {rows : List Row} {title : Text} (h : ∀ r ∈ rows, key r.title ≠ key title)
include h

theorem map_of_absent (row : Row) : (rows.map fun r => if same r.title title then row else r) = rows := by
  refine (List.map_congr_left fun r hr => ?_).trans (List.map_id rows)
  exact if_neg fun hsame => h r hr ((same_iff _ _).1 hsame)

theorem filter_of_absent : (rows.filter fun r => key r.title ≠ key title) = rows :=
  List.filter_eq_self.2 fun r hr => by simpa using h r hr

end

/-- Where a title is in one row only, its row gives way to the new one, in the same place. -/
theorem map_row_eq {rows : List Row} (hkeys : rows.Pairwise fun r r' => key r.title ≠ key r'.title) {title : Text}
    (row : Row) {r : Row} (hr : r ∈ rows) (hkey : key r.title = key title) :
    ∃ as bs, (rows.map fun r => if same r.title title then row else r) = as ++ row :: bs ∧
      (rows.filter fun r => key r.title ≠ key title) = as ++ bs := by
  obtain ⟨as, bs, rfl⟩ := List.append_of_mem hr
  obtain ⟨-, hrest, hacross⟩ := List.pairwise_append.1 hkeys
  have has : ∀ s ∈ as, key s.title ≠ key title := fun s hs => hkey ▸ hacross s hs r List.mem_cons_self
  have hbs : ∀ s ∈ bs, key s.title ≠ key title := fun s hs heq =>
    (List.pairwise_cons.1 hrest).1 s hs (hkey.trans heq.symm)
  refine ⟨as, bs, ?_, ?_⟩
  · rw [List.map_append, List.map_cons, map_of_absent has, map_of_absent hbs, if_pos ((same_iff _ _).2 hkey)]
  · rw [List.filter_append, List.filter_cons_of_neg (by simpa using hkey), filter_of_absent has, filter_of_absent hbs]

theorem perm_map_row {rows : List Row} (hkeys : rows.Pairwise fun r r' => key r.title ≠ key r'.title) {title : Text}
    (row : Row) {r : Row} (hr : r ∈ rows) (hkey : key r.title = key title) :
    (rows.map fun r => if same r.title title then row else r).Perm
      ((rows.filter fun r => key r.title ≠ key title) ++ [row]) := by
  obtain ⟨as, bs, hmap, hfilter⟩ := map_row_eq hkeys row hr hkey
  rw [hmap, hfilter]
  exact List.perm_middle.trans (List.perm_append_singleton row (as ++ bs)).symm

theorem Ranked.put {t : Table} {ranked : List Row} (h : Ranked t.rows ranked)
    (hkeys : t.rows.Pairwise fun r r' => key r.title ≠ key r'.title) (title : Text) (status : Status) :
    Ranked (t.put title status).rows
      ((ranked.filter fun r => key r.title ≠ key title) ++ [⟨title, status, t.clock, lastRevision t.rows + 1⟩]) := by
  have hnewest : ∀ r ∈ t.rows.filter fun r => key r.title ≠ key title, r.revision < lastRevision t.rows + 1 :=
    fun r hr => Nat.lt_succ_of_le (le_lastRevision (List.mem_filter.1 hr).1)
  have hkept := (h.filter fun r => key r.title ≠ key title).concat ⟨title, status, t.clock, lastRevision t.rows + 1⟩
    hnewest
  unfold Table.put
  simp only
  split
  · rename_i hany
    obtain ⟨r, hr, hsame⟩ := List.any_eq_true.1 hany
    exact ⟨hkept.perm.trans (perm_map_row hkeys _ hr ((same_iff _ _).1 hsame)).symm, hkept.rising⟩
  · rename_i hnone
    have habsent : ∀ r ∈ t.rows, key r.title ≠ key title := fun r hr hkey =>
      hnone (List.any_eq_true.2 ⟨r, hr, (same_iff _ _).2 hkey⟩)
    rwa [filter_of_absent habsent] at hkept

/-! ## A table as entries -/

/-- The rows are the entries, ranked by their revisions, and no two are of one title. -/
structure Records (t : Table) (es : List Entry) : Prop where
  ranked : ∃ ranked, Ranked t.rows ranked ∧ ranked.map entryOf = es
  distinct : (keys key es).Nodup

theorem Records.pairwise {t : Table} {es : List Entry} (h : t.Records es) :
    t.rows.Pairwise fun r r' => key r.title ≠ key r'.title := by
  obtain ⟨ranked, hranked, rfl⟩ := h.ranked
  have hnodup := h.distinct
  rw [keys, List.map_map] at hnodup
  exact (List.pairwise_map.1 hnodup).perm hranked.perm fun hne heq => hne heq.symm

/-- **A write overwrites the entries** that a table records. -/
theorem Records.put {t : Table} {es : List Entry} (h : t.Records es) (title : Text) (status : Status) :
    (t.put title status).Records (overwrite key es ⟨title, status⟩) where
  ranked := by
    obtain ⟨ranked, hranked, rfl⟩ := h.ranked
    refine ⟨_, hranked.put h.pairwise title status, ?_⟩
    rw [List.map_append, overwrite, List.filter_map]
    rfl
  distinct := nodup_keys_overwrite key h.distinct _

theorem Records.titles {t : Table} {es : List Entry} (h : t.Records es) (s : Status) : t.titles s = listed s es := by
  obtain ⟨ranked, hranked, rfl⟩ := h.ranked
  rw [Table.titles, (hranked.filter _).newestFirst, listed, ← List.map_reverse, List.filter_map, List.map_map,
    ← List.filter_reverse]
  rfl

/-! ## A table filled from nothing -/

/-- The table after the writes, each made at the time it comes with. -/
def putAll (t : Table) (ws : List (Text × Entry)) : Table :=
  ws.foldl (fun t w => { t with clock := w.1 }.put w.2.title w.2.status) t

theorem Records.putAll {t : Table} {es : List Entry} (h : t.Records es) (ws : List (Text × Entry)) :
    (t.putAll ws).Records (overwriteAll key es (ws.map Prod.snd)) := by
  induction ws generalizing t es with
  | nil => exact h
  | cons w ws ih =>
    have hclock : ({ t with clock := w.1 } : Table).Records es := ⟨h.ranked, h.distinct⟩
    exact ih (hclock.put w.2.title w.2.status)

theorem records_nil : ({} : Table).Records [] := ⟨⟨[], ⟨.refl _, .nil⟩, rfl⟩, .nil⟩

/-- **A table filled from nothing records what its history leaves.** -/
theorem records_putAll (ws : List (Text × Entry)) :
    (putAll {} ws).Records (overwriteAll key [] (ws.map Prod.snd)) := records_nil.putAll ws

end Table
end WatchList
