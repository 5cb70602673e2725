import WatchList.Proofs.Isolation
import WatchList.Proofs.Ordinals
import WatchList.Proofs.Sorting
/-!
# Plans carried out again

What a plan writes, and what it reports, is told by the faults of the catalog alone, and not by what it holds
(`Plan.run_of_faults`).  Writes that are carried out once more change no list of entries: what they name is already
written last, in the order of the latest writes (`overwriteAll_overwriteAll`).  A shelf is such a list, and a table lists
one, also where rows share a revision (`Table.Lists.fill`).  So to carry out a plan again is harmless, in memory as in a
file (`Plan.run_again`).
-/
namespace WatchList

/-- **The same writes once more change nothing**: behind the entries that no write names stand the latest writes, both
times. -/
theorem overwriteAll_overwriteAll {β : Type} [DecidableEq β] (key : Text → β) (es ws : List Entry) :
    overwriteAll key (overwriteAll key es ws) ws = overwriteAll key es ws := by
  rw [overwriteAll_eq key (overwriteAll key es ws) ws, filter_untouched_overwriteAll, ← overwriteAll_eq]

/-! ## The rows of a table, newest first -/

namespace Table

theorem newer_trans (a b c : Row) (hab : decide (b.revision ≤ a.revision) = true)
    (hbc : decide (c.revision ≤ b.revision) = true) : decide (c.revision ≤ a.revision) = true := by
  simp only [decide_eq_true_eq] at *
  omega

theorem newer_total (a b : Row) : (decide (b.revision ≤ a.revision) || decide (a.revision ≤ b.revision)) = true := by
  simp only [Bool.or_eq_true, decide_eq_true_eq]
  omega

theorem filter_newestFirst (p : Row → Bool) (rows : List Row) :
    (newestFirst rows).filter p = newestFirst (rows.filter p) := filter_mergeSort newer_trans newer_total p rows

theorem newestFirst_middle {row : Row} {as bs : List Row} (h : ∀ r ∈ as ++ bs, r.revision < row.revision) :
    newestFirst (as ++ row :: bs) = row :: newestFirst (as ++ bs) := by
  obtain ⟨has, hbs⟩ := List.forall_mem_append.1 h
  apply mergeSort_middle newer_trans newer_total
  · intro r hr
    simpa using Nat.le_of_lt (hbs r hr)
  · intro r hr
    simpa using has r hr

/-- **The row that is written is the newest**, and the others keep their order. -/
theorem newestFirst_put {t : Table} (hkeys : t.rows.Pairwise fun r r' => key r.title ≠ key r'.title) (title : Text)
    (status : Status) : newestFirst (t.put title status).rows =
      ⟨title, status, t.clock, lastRevision t.rows + 1⟩ :: (newestFirst t.rows).filter fun r => key r.title ≠ key title := by
  have hnewest : ∀ r ∈ t.rows.filter fun r => key r.title ≠ key title, r.revision < lastRevision t.rows + 1 :=
    fun r hr => Nat.lt_succ_of_le (le_lastRevision (List.mem_filter.1 hr).1)
  rw [filter_newestFirst]
  unfold Table.put
  simp only
  split
  · rename_i hany
    obtain ⟨r, hr, hsame⟩ := List.any_eq_true.1 hany
    obtain ⟨as, bs, hmap, hfilter⟩ := map_row_eq hkeys ⟨title, status, t.clock, lastRevision t.rows + 1⟩ hr
      ((same_iff _ _).1 hsame)
    rw [hfilter] at hnewest
    rw [hmap, hfilter]
    exact newestFirst_middle hnewest
  · rename_i hnone
    have habsent : ∀ r ∈ t.rows, key r.title ≠ key title := fun r hr hkey =>
      hnone (List.any_eq_true.2 ⟨r, hr, (same_iff _ _).2 hkey⟩)
    rw [filter_of_absent habsent] at hnewest ⊢
    rw [newestFirst_middle (by simpa using hnewest), List.append_nil]

/-- The rows are the entries, the newest row the last entry, and no two are of one title.  Rows may share a revision. -/
structure Lists (t : Table) (es : List Entry) : Prop where
  newest : (newestFirst t.rows).map entryOf = es.reverse
  distinct : (keys key es).Nodup

section
variable {t : Table} {es : List Entry} (h : t.Lists es)
include h

theorem Lists.pairwise : t.rows.Pairwise fun r r' => key r.title ≠ key r'.title := by
  have hreverse : (es.reverse.map fun e => key e.title).Nodup := by
    rw [List.map_reverse]
    exact List.nodup_reverse.2 h.distinct
  rw [← h.newest, List.map_map] at hreverse
  exact (List.pairwise_map.1 hreverse).perm (List.mergeSort_perm t.rows _) fun hne heq => hne heq.symm

theorem Lists.titles (s : Status) : t.titles s = listed s es := by
  rw [Table.titles, ← filter_newestFirst, listed, ← h.newest, List.filter_map, List.map_map]
  rfl

theorem Lists.put (title : Text) (status : Status) :
    (t.put title status).Lists (overwrite key es ⟨title, status⟩) where
  newest := by
    rw [newestFirst_put h.pairwise, List.map_cons, overwrite, List.reverse_append, ← List.filter_reverse, ← h.newest,
      List.filter_map]
    rfl
  distinct := nodup_keys_overwrite key h.distinct _

end

theorem Lists.fill {t : Table} {es : List Entry} (h : t.Lists es) :
    ∀ ws : List Entry, (Holdings.fill t ws).Lists (overwriteAll key es ws)
  | [] => h
  | w :: ws => (h.put w.title w.status).fill ws

theorem exists_lists {t : Table} (hkeys : t.rows.Pairwise fun r r' => key r.title ≠ key r'.title) :
    ∃ es, t.Lists es := by
  refine ⟨((newestFirst t.rows).map entryOf).reverse, (List.reverse_reverse _).symm, ?_⟩
  have hperm : t.rows.Perm (newestFirst t.rows) := (List.mergeSort_perm t.rows _).symm
  have hnewest : ((newestFirst t.rows).map fun r => key r.title).Nodup :=
    List.pairwise_map.2 (hkeys.perm hperm fun hne heq => hne heq.symm)
  rw [keys, List.map_reverse, List.map_map]
  exact List.nodup_reverse.2 hnewest

end Table

namespace Plan

/-- The writes that the plan carries out on a catalog with these faults. -/
def writes (faults : Faults) (p : Plan) : List Entry := (p.carriedOut faults).filterMap Action.request?

section
variable {σ τ : Type} [Holdings σ] [Holdings τ]

theorem holdings_runFrom : ∀ (p : Plan) (r : Report) (c : Catalog σ),
    (runFrom r p c).2.holdings = Holdings.fill c.holdings (p.writes c.faults)
  | [], _, _ => rfl
  | a :: p, r, c => by
    have ih := holdings_runFrom p (step a r c).1 (step a r c).2
    rw [faults_step] at ih
    rw [runFrom, ih]
    cases h : a.complaint? c.faults with
    | some msg => rw [step_of_complaint h, writes, writes, carriedOut_cons_of_complaint p h]
    | none =>
      obtain ⟨s, hs, hstep⟩ := step_of_no_complaint h
      have hreq : a.request? = some ⟨a.title, s⟩ := by rw [Action.request?, hs, Option.map_some]
      rw [hstep, writes, writes, carriedOut_cons_of_no_complaint p h, List.filterMap_cons_some hreq]
      rfl

theorem report_step {c : Catalog σ} {d : Catalog τ} (h : c.faults = d.faults) (a : Action) (r : Report) :
    (step a r c).1 = (step a r d).1 := by
  cases hc : a.complaint? c.faults with
  | some msg =>
    have hd : a.complaint? d.faults = some msg := h ▸ hc
    rw [step_of_complaint hc, step_of_complaint hd]
  | none =>
    have hd : a.complaint? d.faults = none := h ▸ hc
    obtain ⟨s, hs, hstep⟩ := step_of_no_complaint hc
    obtain ⟨s', hs', hstep'⟩ := step_of_no_complaint hd
    obtain rfl : s = s' := Option.some.inj (hs.symm.trans hs')
    rw [hstep, hstep']

/-- **A report does not depend on what the catalog holds.** -/
theorem report_runFrom : ∀ (p : Plan) (r : Report) {c : Catalog σ} {d : Catalog τ}, c.faults = d.faults →
    (runFrom r p c).1 = (runFrom r p d).1
  | [], _, _, _, _ => rfl
  | a :: p, r, c, d, h => by
    have hnext : (step a r c).2.faults = (step a r d).2.faults := by rw [faults_step, faults_step, h]
    rw [runFrom, runFrom, report_step h a r]
    exact report_runFrom p _ hnext

theorem faults_runFrom : ∀ (p : Plan) (r : Report) (c : Catalog σ), (runFrom r p c).2.faults = c.faults
  | [], _, _ => rfl
  | a :: p, r, c => (faults_runFrom p _ _).trans (faults_step a r c)

/-- **Carried out where the same is refused**, a plan reports the same and writes the same. -/
theorem run_of_faults (p : Plan) {c : Catalog σ} {d : Catalog τ} (h : d.faults = c.faults) :
    (p.run d).1 = (p.run c).1 ∧ (p.run d).2.holdings = Holdings.fill d.holdings (p.writes c.faults) :=
  ⟨report_runFrom p {} h, h ▸ holdings_runFrom p {} d⟩

end

/-- **To carry out a plan again is harmless.**  Let a catalog refuse the writes of some titles, and let it be any catalog
in memory, or any in a file that has no title in two rows.  Carrying out the plan a second time, at any later time,
reports what the first time did, and leaves every listing as the first time left it. -/
theorem run_again (p : Plan) (faults : Faults) (journal : List Entry) :
    (∀ shelf : Shelf,
      let once := p.run ({ holdings := shelf, faults, journal } : Catalog Shelf)
      let twice := p.run once.2
      twice.1 = once.1 ∧ ∀ s, Holdings.titles s twice.2.holdings = Holdings.titles s once.2.holdings) ∧
    ∀ (table : Table) (time : Text), table.rows.Pairwise (fun r r' => ¬ Table.same r.title r'.title) →
      let once := p.run ({ holdings := table, faults, journal } : Catalog Table)
      let twice := p.run (once.2.atTime time)
      twice.1 = once.1 ∧ ∀ s, Holdings.titles s twice.2.holdings = Holdings.titles s once.2.holdings := by
  constructor
  · intro shelf once twice
    have hfaults : once.2.faults = faults := faults_runFrom p {} _
    have honce : once.2.holdings = Holdings.fill shelf (p.writes faults) := holdings_runFrom p {} _
    obtain ⟨hreport, htwice⟩ : twice.1 = once.1 ∧ twice.2.holdings = Holdings.fill once.2.holdings (p.writes faults) :=
      run_of_faults p hfaults
    have hentries : twice.2.holdings.entries = once.2.holdings.entries := by
      rw [htwice, honce, Shelf.entries_fill, Shelf.entries_fill, overwriteAll_overwriteAll]
    exact ⟨hreport, fun s => congrArg (listed s) hentries⟩
  · intro table time hkeys once twice
    have hfaults : once.2.faults = faults := faults_runFrom p {} _
    have honce : once.2.holdings = Holdings.fill table (p.writes faults) := holdings_runFrom p {} _
    obtain ⟨hreport, htwice⟩ : twice.1 = once.1 ∧
        twice.2.holdings = Holdings.fill { once.2.holdings with clock := time } (p.writes faults) :=
      run_of_faults p hfaults
    obtain ⟨es, hes⟩ := Table.exists_lists (hkeys.imp fun hne heq => hne ((Table.same_iff _ _).2 heq))
    have hfirst := hes.fill (p.writes faults)
    rw [← honce] at hfirst
    -- the clock of a table is in none of its rows
    have hlater : ({ once.2.holdings with clock := time } : Table).Lists _ := ⟨hfirst.newest, hfirst.distinct⟩
    have hsecond := hlater.fill (p.writes faults)
    rw [← htwice, overwriteAll_overwriteAll] at hsecond
    exact ⟨hreport, fun s => (hsecond.titles s).trans (hfirst.titles s).symm⟩

/-- A title written twice and a refused one, in a file whose rows share a revision.  The second run numbers its writes
anew. -/
theorem run_again_shared_revision :
    let table : Table := { rows := [⟨"Heat".toList, .seen, [], 0⟩, ⟨"Dune".toList, .seen, [], 0⟩] }
    let p : Plan := [.add "HEAT".toList, .remove "Alien".toList, .setStatus "heat".toList "seen".toList]
    let once := p.run ({ holdings := table, faults := .of ["Alien".toList] [] } : Catalog Table)
    let twice := p.run (once.2.atTime "later".toList)
    table.rows.Pairwise (fun r r' => ¬ Table.same r.title r'.title) ∧
      twice.2.holdings.rows ≠ once.2.holdings.rows ∧
      twice.1 = once.1 ∧ ∀ s, Holdings.titles s twice.2.holdings = Holdings.titles s once.2.holdings := by
  intro table p once twice
  have hkeys : table.rows.Pairwise (fun r r' => ¬ Table.same r.title r'.title) := by decide
  have hrows : twice.2.holdings.rows ≠ once.2.holdings.rows := by decide +kernel
  obtain ⟨-, hagain⟩ := run_again p (.of ["Alien".toList] []) []
  exact ⟨hkeys, hrows, hagain table "later".toList hkeys⟩

end Plan
end WatchList
