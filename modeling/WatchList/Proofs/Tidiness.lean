import WatchList.Catalog.Shelf
import WatchList.Proofs.CleanTitles
import WatchList.Proofs.Custody
import WatchList.Proofs.Revisions
/-!
# Tidiness: what the tools leave behind

Every tool that reads titles from what a user types writes clean ones, so a catalog that only such tools have written to
holds clean titles (`Holdings.View.kept_tidy`), in memory as in a file.  The two are treated as one: both are a list of
entries under a key (`Holdings.View`).  On a tidy catalog pruning finds nothing to do, a listing is shown as it is, and
the status of a title is the one under which it stands (`Tool.leave_tidy`).
-/
namespace WatchList

/-- Holdings seen as a list of entries, one for each key, the least recently written first. -/
structure Holdings.View (σ : Type) [Holdings σ] (β : Type) [DecidableEq β] where
  key : Text → β
  shows : σ → List Entry → Prop
  nodup : ∀ {h es}, shows h es → (keys key es).Nodup
  put : ∀ {h es}, shows h es → ∀ title status,
    shows (Holdings.put title status h) (overwrite key es ⟨title, status⟩)
  titles : ∀ {h es}, shows h es → ∀ s, Holdings.titles s h = listed s es

def Shelf.view : Holdings.View Shelf Text where
  key := Text.lowercase
  shows s es := s.entries = es ∧ (keys Text.lowercase es).Nodup
  nodup h := h.2
  put := by
    rintro s es ⟨rfl, hnodup⟩ title status
    exact ⟨Shelf.entries_put title status s, nodup_keys_overwrite _ hnodup _⟩
  titles := by
    rintro s es ⟨rfl, -⟩ status
    rfl

def Table.view : Holdings.View Table (Nat × Text) where
  key := Table.key
  shows := Table.Records
  nodup h := h.distinct
  put h := h.put
  titles h := h.titles

theorem mem_listed {s : Status} {es : List Entry} {t : Text} : t ∈ listed s es ↔ ⟨t, s⟩ ∈ es := by
  simp only [listed, List.mem_map, List.mem_filter, List.mem_reverse, beq_iff_eq]
  constructor
  · rintro ⟨⟨t', s'⟩, ⟨he, rfl⟩, rfl⟩
    exact he
  · intro he
    exact ⟨⟨t, s⟩, ⟨he, rfl⟩, rfl⟩

theorem nodup_listed {β : Type} [DecidableEq β] {key : Text → β} {es : List Entry} (h : (keys key es).Nodup)
    (s : Status) : (listed s es).Nodup := by
  have htitles : (es.map Entry.title).Nodup := by
    have hmap : keys key es = (es.map Entry.title).map key := (List.map_map).symm
    rw [hmap] at h
    exact h.of_map key
  have hreverse : (es.reverse.map Entry.title).Nodup := by
    rw [List.map_reverse]
    exact List.nodup_reverse.2 htitles
  exact hreverse.sublist (List.filter_sublist.map _)

/-! ## Tidy holdings -/

namespace Holdings.View
variable {σ : Type} [Holdings σ] {β : Type} [DecidableEq β] (v : Holdings.View σ β)

/-- Every title that is held is clean. -/
def Tidy (h : σ) : Prop := ∃ es, v.shows h es ∧ ∀ e ∈ es, Title.Clean e.title

variable {v}

theorem Tidy.put {h : σ} (hh : v.Tidy h) {title : Text} (ht : Title.Clean title) (status : Status) :
    v.Tidy (Holdings.put title status h) := by
  obtain ⟨es, hes, hclean⟩ := hh
  refine ⟨_, v.put hes title status, fun e he => ?_⟩
  rcases List.mem_append.1 he with he | he
  · exact hclean e (List.mem_filter.1 he).1
  · rw [List.mem_singleton.1 he]
    exact ht

theorem Tidy.fill : ∀ {ws : List Entry} {h : σ}, v.Tidy h → (∀ w ∈ ws, Title.Clean w.title) →
    v.Tidy (Holdings.fill h ws)
  | [], _, hh, _ => hh
  | w :: ws, h, hh, hws => by
    obtain ⟨hw, hws⟩ := List.forall_mem_cons.1 hws
    have ih : v.Tidy (Holdings.fill (Holdings.put w.title w.status h) ws) := (hh.put hw w.status).fill hws
    exact ih

theorem Tidy.listing {h : σ} (hh : v.Tidy h) (s : Status) :
    (∀ t ∈ Holdings.titles s h, Title.Clean t) ∧ (Holdings.titles s h).Nodup := by
  obtain ⟨es, hes, hclean⟩ := hh
  rw [v.titles hes]
  exact ⟨fun t ht => hclean _ (mem_listed.1 ht), nodup_listed (v.nodup hes) s⟩

/-- **Writes of clean titles keep holdings tidy**, whichever of them are refused. -/
theorem kept_tidy : KeptFor Title.Clean fun c d : Fickle σ => v.Tidy c.holdings → v.Tidy d.holdings where
  refl _ h := h
  trans hcd hde h := hde (hcd h)
  write {title} ht status c h := by
    change v.Tidy (Work.write title status c).2.holdings
    rcases Fickle.write_cases title status c with ⟨-, hw⟩ | ⟨e, -, hw⟩
    · rw [hw]
      exact h.put ht status
    · rwa [hw]
  list status c h := by
    change v.Tidy (Work.list status c).2.holdings
    rcases Fickle.list_cases status c with ⟨-, hl⟩ | ⟨e, -, hl⟩ <;> rwa [hl]

end Holdings.View

/-! ## Jobs on a tidy catalog -/

section
variable {κ : Type} [Keeper κ] {c d : κ}

/-- Where every title names something, there is nothing to prune. -/
theorem Upkeep.prune_of_clean {word : Text} {titles : List Text}
    (hlist : Work.list (Status.ofWord word) c = (.ok titles, d)) (h : ∀ t ∈ titles, Title.Clean t) :
    Upkeep.prune word c = (.ok 0, d) := by
  have hnone : titles.filter (fun t => (Title.normalize t).isEmpty) = [] := by
    refine List.filter_eq_nil_iff.2 fun t ht => ?_
    rw [(h t ht).normal]
    simpa using (h t ht).named
  rw [Upkeep.prune, Job.bind_of_ok hlist, hnone, ite_self]
  rfl

theorem Library.list_of_clean {word : Text} {titles : List Text}
    (hlist : Work.list (Status.ofWord word) c = (.ok titles, d)) (h : ∀ t ∈ titles, Title.Clean t)
    (hnodup : titles.Nodup) : Library.list word c = (.ok titles, d) := by
  have hdistinct : distinctBy id titles = titles := distinctBy_of_nodup id (by rwa [List.map_id])
  rw [Library.list, Job.bind_of_ok hlist, Title.ofAll_of_clean h, hdistinct]
  rfl

theorem Upkeep.statusUnder_eq {titles : Status → List Text} (hlist : ∀ s, Work.list s c = (.ok (titles s), c))
    (key : Text) : ∀ ss : List Status, Upkeep.statusUnder key ss c =
      (.ok (ss.find? fun s => (titles s).any fun t => (Title.normalize t).lowercase == key), c)
  | [] => rfl
  | s :: ss => by
    have ih := Upkeep.statusUnder_eq hlist key ss
    rw [Upkeep.statusUnder, Job.bind_of_ok (hlist s)]
    cases hs : (titles s).any fun t => (Title.normalize t).lowercase == key with
    | true => simp only [List.find?_cons, hs]; rfl
    | false => simp only [List.find?_cons, hs]; exact ih

end

/-- A shelf finds a title under the status where a listing shows it. -/
theorem Shelf.statusOf?_of_tidy {s : Shelf} (h : Shelf.view.Tidy s) (key : Text) :
    (Status.all.find? fun status => (s.titles status).any fun t => (Title.normalize t).lowercase == key.lowercase) =
      s.statusOf? key := by
  obtain ⟨es, ⟨rfl, hnodup⟩, hclean⟩ := h
  have hany : ∀ status, ((s.titles status).any fun t => (Title.normalize t).lowercase == key.lowercase) = true ↔
      ∃ e ∈ s.entries, e.status = status ∧ e.title.lowercase = key.lowercase := by
    intro status
    have htitles : s.titles status = listed status s.entries := rfl
    rw [htitles, List.any_eq_true]
    constructor
    · rintro ⟨t, ht, hkey⟩
      have he := mem_listed.1 ht
      rw [(hclean _ he).normal] at hkey
      exact ⟨_, he, rfl, by simpa using hkey⟩
    · rintro ⟨e, he, rfl, hkey⟩
      exact ⟨e.title, mem_listed.2 he, by rw [(hclean e he).normal]; simpa using hkey⟩
  rw [statusOf?]
  cases hfind : s.entries.find? fun e => same e.title key with
  | none =>
    have hfree := List.find?_eq_none.1 hfind
    rw [Option.map_none, List.find?_eq_none]
    intro status _ hstatus
    obtain ⟨e, he, -, hkey⟩ := (hany status).1 hstatus
    exact hfree e he (by simpa [same] using hkey)
  | some e =>
    have he := List.mem_of_find?_eq_some hfind
    have hkey : e.title.lowercase = key.lowercase := by simpa [same] using List.find?_some hfind
    -- the entry is the only one of its title
    have honly : ∀ status, ((s.titles status).any fun t => (Title.normalize t).lowercase == key.lowercase) =
        decide (e.status = status) := by
      intro status
      rw [Bool.eq_iff_iff, hany, decide_eq_true_iff]
      constructor
      · rintro ⟨e', he', rfl, hkey'⟩
        rw [List.inj_on_of_nodup_map hnodup he he' (hkey.trans hkey'.symm)]
      · intro hstatus
        exact ⟨e, he, hstatus, hkey⟩
    simp only [honly, Option.map_some]
    cases e.status <;> rfl

/-! ## Runs of tools -/

section
variable {σ : Type} [Holdings σ] {β : Type} [DecidableEq β] {v : Holdings.View σ β} {c : Fickle σ}

/-- What a tidy catalog lists is clean, so pruning writes nothing, and still less where the listing is refused. -/
theorem Upkeep.tidy_prune (hc : v.Tidy c.holdings) (word : Text) : v.Tidy (Upkeep.prune word c).2.holdings := by
  rcases Fickle.list_cases (Status.ofWord word) c with ⟨-, hlist⟩ | ⟨e, -, hlist⟩
  · rw [Upkeep.prune_of_clean hlist (hc.listing _).1]
    exact hc
  · rw [Upkeep.prune, Job.bind_of_error hlist]
    exact hc

namespace Tool

/-- The tool reads its titles from what a user types, and is not given a plan made by hand. -/
def ordinary : Tool → Bool
  | carryOut _ => false
  | _ => true

/-- **A tool keeps holdings tidy.** -/
theorem after_tidy {t : Tool} (ht : t.ordinary = true) (hc : v.Tidy c.holdings) : v.Tidy (t.after c).holdings := by
  have hclean : ∀ raw, Title.normalize raw ≠ [] → Title.Clean (Title.normalize raw) := fun _ => Title.clean_normalize
  cases t with
  | carryOut plan => cases ht
  | prune word => exact Upkeep.tidy_prune hc word
  | interpret instruction =>
    refine keepsFor Holdings.View.kept_tidy ?_ c hc
    exact fun a ha => Plan.clean_of_mem_ofText ha
  | _ =>
    refine keepsFor Holdings.View.kept_tidy ?_ c hc
    exact hclean

end Tool

end

/-! ## The catalogs that tools leave -/

/-- A catalog in a file at another time. -/
def Fickle.atTime (time : Text) (c : Fickle Table) : Fickle Table :=
  { c with holdings := { c.holdings with clock := time } }

namespace Tool

/-- A catalog in memory after tools were used on it, and one in a file, where each tool is used at its time. -/
def afterAll (c : Fickle Shelf) (ts : List (Text × Tool)) : Fickle Shelf := ts.foldl (fun c t => t.2.after c) c

def afterAllAt (c : Fickle Table) (ts : List (Text × Tool)) : Fickle Table :=
  ts.foldl (fun c t => t.2.after (c.atTime t.1)) c

theorem afterAll_tidy : ∀ {ts : List (Text × Tool)} {c : Fickle Shelf}, (∀ t ∈ ts, t.2.ordinary = true) →
    Shelf.view.Tidy c.holdings → Shelf.view.Tidy (afterAll c ts).holdings
  | [], _, _, hc => hc
  | t :: ts, c, h, hc => by
    have ih : Shelf.view.Tidy (t.2.after c).holdings → Shelf.view.Tidy (afterAll (t.2.after c) ts).holdings :=
      afterAll_tidy fun u hu => h u (List.mem_cons_of_mem t hu)
    exact ih (after_tidy (h t List.mem_cons_self) hc)

theorem afterAllAt_tidy : ∀ {ts : List (Text × Tool)} {c : Fickle Table}, (∀ t ∈ ts, t.2.ordinary = true) →
    Table.view.Tidy c.holdings → Table.view.Tidy (afterAllAt c ts).holdings
  | [], _, _, hc => hc
  | t :: ts, c, h, hc => by
    have ih : Table.view.Tidy (t.2.after (c.atTime t.1)).holdings →
        Table.view.Tidy (afterAllAt (t.2.after (c.atTime t.1)) ts).holdings :=
      afterAllAt_tidy fun u hu => h u (List.mem_cons_of_mem t hu)
    have htime : Table.view.Tidy (c.atTime t.1).holdings := by
      obtain ⟨es, hes, hclean⟩ := hc
      exact ⟨es, ⟨hes.ranked, hes.distinct⟩, hclean⟩
    exact ih (after_tidy (h t List.mem_cons_self) htime)

theorem clean_of_mem_rows {t : Table} (h : Table.view.Tidy t) {r : Row} (hr : r ∈ t.rows) : Title.Clean r.title := by
  obtain ⟨es, ⟨⟨ranked, hranked, rfl⟩, -⟩, hclean⟩ := h
  exact hclean (Table.entryOf r) (List.mem_map_of_mem (hranked.perm.mem_iff.2 hr))

/-- **The tools leave clean titles.**  Let tools be used on an empty catalog, in memory or in a file, with whatever
arguments, and let requests be refused in whatever pattern; only a plan made by hand is not among them.  Then every
title that is held is clean.  So on what they leave pruning counts nothing and asks for no write, a listing is shown as
the catalog has it, and in memory the status of a text is that of its normal form. -/
theorem leave_tidy (ts : List (Text × Tool)) (h : ∀ t ∈ ts, t.2.ordinary = true)
    (refuses : List Request → Option Error) (denied : Text → Option Error) (look : Option Error)
    (journal : List Entry) :
    let faults : Faults := { write := denied, list := fun _ => none, look }
    let shelf := (afterAll { holdings := {}, refuses } ts).holdings
    let c : Catalog Shelf := { holdings := shelf, faults, journal }
    let table := (afterAllAt { holdings := {}, refuses } ts).holdings
    let d : Catalog Table := { holdings := table, faults, journal }
    (∀ e ∈ shelf.entries, Title.Clean e.title) ∧ (∀ r ∈ table.rows, Title.Clean r.title) ∧
      (∀ word, Upkeep.prune word c = (.ok 0, c) ∧ Upkeep.prune word d = (.ok 0, d)) ∧
      (∀ word, Library.list word c = (.ok (shelf.titles (Status.ofWord word)), c) ∧
        Library.list word d = (.ok (table.titles (Status.ofWord word)), d)) ∧
      ∀ raw, Upkeep.findStatus raw c = (.ok (shelf.statusOf? (Title.normalize raw)), c) := by
  intro faults shelf c table d
  have hshelf : Shelf.view.Tidy shelf := afterAll_tidy h ⟨[], ⟨rfl, .nil⟩, fun _ he => nomatch he⟩
  have htable : Table.view.Tidy table := afterAllAt_tidy h ⟨[], Table.records_nil, fun _ he => nomatch he⟩
  have hc : ∀ s, Work.list s c = (.ok (shelf.titles s), c) := fun _ => rfl
  have hd : ∀ s, Work.list s d = (.ok (table.titles s), d) := fun _ => rfl
  refine ⟨?_, fun r => clean_of_mem_rows htable, fun word => ?_, fun word => ?_, fun raw => ?_⟩
  · obtain ⟨es, ⟨rfl, -⟩, hclean⟩ := hshelf
    exact hclean
  · exact ⟨Upkeep.prune_of_clean (hc _) (hshelf.listing _).1, Upkeep.prune_of_clean (hd _) (htable.listing _).1⟩
  · exact ⟨Library.list_of_clean (hc _) (hshelf.listing _).1 (hshelf.listing _).2,
      Library.list_of_clean (hd _) (htable.listing _).1 (htable.listing _).2⟩
  · rw [Upkeep.findStatus, Upkeep.statusUnder_eq hc, Shelf.statusOf?_of_tidy hshelf]

/-- An instruction, a list whose writes are refused from the second on while it is new, and a change of name. -/
theorem leave_tidy_refused :
    let ts : List (Text × Tool) := [("9:00".toList, .interpret "add “ Heat ”, Dune; mark Alien as seen".toList),
      ("9:10".toList, .addMany "\"Drive\",, Ronin ,".toList), ("9:20".toList, .rename "heat".toList " Heat  (1995) ".toList)]
    let refuses : List Request → Option Error := fun asked =>
      if asked.length = 2 then some (.storage "disk full".toList) else none
    let faults : Faults := { write := fun _ => none, list := fun _ => none, look := none }
    let shelf := (afterAll { holdings := {}, refuses } ts).holdings
    let c : Catalog Shelf := { holdings := shelf, faults }
    shelf.entries = [⟨"Alien".toList, .seen⟩, ⟨"Drive".toList, .wanted⟩, ⟨"Ronin".toList, .wanted⟩,
        ⟨"Heat (1995)".toList, .wanted⟩, ⟨"heat".toList, .disliked⟩] ∧
      (∀ t ∈ ts, t.2.ordinary = true) ∧ (∀ e ∈ shelf.entries, Title.Clean e.title) ∧
      (∀ word, Upkeep.prune word c = (.ok 0, c)) ∧
      (∀ word, Library.list word c = (.ok (shelf.titles (Status.ofWord word)), c)) ∧
      ∀ raw, Upkeep.findStatus raw c = (.ok (shelf.statusOf? (Title.normalize raw)), c) := by
  intro ts refuses faults shelf c
  have hordinary : ∀ t ∈ ts, t.2.ordinary = true := by decide
  obtain ⟨hclean, -, hprune, hlist, hfind⟩ := leave_tidy ts hordinary refuses (fun _ => none) none []
  exact ⟨by decide +kernel, hordinary, hclean, fun word => (hprune word).1, fun word => (hlist word).1, hfind⟩

end Tool

end WatchList
