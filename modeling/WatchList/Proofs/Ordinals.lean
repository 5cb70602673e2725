import Mathlib.Data.List.Find
import WatchList.Proofs.Latest
import WatchList.Proofs.Revisions
/-!
# Revisions are ordinals

A write of a catalog in a file gives its row a revision above all others.  So the revision of a row is the number of the
write it comes from, among the writes that were not refused (`Filed`), also when the row that was written last is the
one that gives way.  A closed catalog refuses every request and keeps its rows.  So what an open one answers is told by
the writes it took while it was open, each with its time and number (`Catalog.after_tells`).
-/
namespace WatchList
namespace Table

/-- The rows that writes would make if none took the place of another, after `n` writes before them.  A write comes with
its time. -/
def numbered (n : Nat) : List (Text × Entry) → List Row
  | [] => []
  | w :: ws => ⟨w.2.title, w.2.status, w.1, n + 1⟩ :: numbered (n + 1) ws

theorem numbered_append (vs : List (Text × Entry)) :
    ∀ (n : Nat) (us : List (Text × Entry)), numbered n (us ++ vs) = numbered n us ++ numbered (n + us.length) vs
  | n, [] => rfl
  | n, u :: us => by
    rw [List.cons_append, numbered, numbered_append vs (n + 1) us, List.length_cons, Nat.add_right_comm]
    rfl

theorem map_title_numbered : ∀ (n : Nat) (ws : List (Text × Entry)),
    (numbered n ws).map Row.title = ws.map fun w => w.2.title
  | _, [] => rfl
  | n, w :: ws => by rw [numbered, List.map_cons, map_title_numbered (n + 1) ws, List.map_cons]

/-- The rows fall apart where the writes do. -/
theorem numbered_eq_append {r : Row} {rs' : List Row} : ∀ {n : Nat} {ws : List (Text × Entry)} {rs : List Row},
    numbered n ws = rs ++ r :: rs' → ∃ us w vs, ws = us ++ w :: vs ∧
      r = ⟨w.2.title, w.2.status, w.1, n + us.length + 1⟩ ∧ rs' = numbered (n + us.length + 1) vs
  | _, [], rs, h => absurd h (by cases rs <;> simp [numbered])
  | n, w :: ws, [], h => by
    obtain ⟨hr, hrs'⟩ := List.cons.inj h
    exact ⟨[], w, ws, rfl, hr.symm, hrs'.symm⟩
  | n, w :: ws, _ :: rs, h => by
    obtain ⟨us, v, vs, rfl, hr, hrs'⟩ := numbered_eq_append (List.cons.inj h).2
    have hlen : n + 1 + us.length = n + (w :: us).length := by simp only [List.length_cons]; omega
    rw [hlen] at hr hrs'
    exact ⟨w :: us, v, vs, rfl, hr, hrs'⟩

/-! ## The greatest revision -/

theorem lastRevision_le {rows : List Row} {m : Nat} (h : ∀ r ∈ rows, r.revision ≤ m) : lastRevision rows ≤ m := by
  have hmax : ∀ (ns : List Nat) (k : Nat), k ≤ m → (∀ n ∈ ns, n ≤ m) → ns.foldl max k ≤ m := by
    intro ns
    induction ns with
    | nil => exact fun k hk _ => hk
    | cons n ns ih =>
      intro k hk hns
      have hn := hns n List.mem_cons_self
      exact ih (max k n) (by omega) fun n' hn' => hns n' (List.mem_cons_of_mem n hn')
  refine hmax _ 0 (Nat.zero_le m) fun n hn => ?_
  obtain ⟨r, hr, rfl⟩ := List.mem_map.1 hn
  exact h r hr

theorem Ranked.lastRevision {rows ranked : List Row} {r : Row} (h : Ranked rows (ranked ++ [r])) :
    lastRevision rows = r.revision := by
  have hr : r ∈ rows := h.perm.mem_iff.1 (List.mem_append_right ranked (List.mem_singleton_self r))
  refine Nat.le_antisymm (lastRevision_le fun r' hr' => ?_) (le_lastRevision hr)
  rcases List.mem_append.1 (h.perm.mem_iff.2 hr') with h' | h'
  · exact Nat.le_of_lt ((List.pairwise_append.1 h.rising).2.2 r' h' r (List.mem_singleton_self r))
  · rw [List.mem_singleton.1 h']

/-! ## What the rows are -/

/-- The rows are those of the latest writes, and the last revision is the number of writes. -/
structure Filed (t : Table) (ws : List (Text × Entry)) : Prop where
  ranked : Ranked t.rows (latestBy (fun r => key r.title) (numbered 0 ws))
  last : lastRevision t.rows = ws.length

theorem filed_nil : Filed {} [] := ⟨⟨.refl _, .nil⟩, rfl⟩

theorem Filed.nodup {t : Table} {ws : List (Text × Entry)} (h : t.Filed ws) :
    (t.rows.map fun r => key r.title).Nodup :=
  (h.ranked.perm.map _).nodup_iff.1 (nodup_map_latestBy _ _)

/-- **A write takes the next number**, and the row of its title gives way. -/
theorem Filed.put {t : Table} {ws : List (Text × Entry)} (h : t.Filed ws) (w : Text × Entry) :
    Filed ({ t with clock := w.1 }.put w.2.title w.2.status) (ws ++ [w]) := by
  have hput := Ranked.put (t := { t with clock := w.1 }) h.ranked (List.pairwise_map.1 h.nodup) w.2.title w.2.status
  refine ⟨?_, by rw [hput.lastRevision, List.length_append, ← h.last]; rfl⟩
  rw [numbered_append, Nat.zero_add, numbered, numbered, latestBy_append_singleton, ← h.last]
  exact hput

/-! ## What a table tells -/

/-- The table answers as its writes say, where titles are told apart by the case of ASCII letters alone. -/
structure Tells (t : Table) (ws : List (Text × Entry)) : Prop where
  distinct : t.rows.Pairwise fun r r' => r.title.sameAscii r'.title = false
  /-- A row is a write that no later write of its title follows, and its revision is the number of the write. -/
  ordinal : ∀ r, r ∈ t.rows ↔ ∃ us w vs, ws = us ++ w :: vs ∧ r = ⟨w.2.title, w.2.status, w.1, us.length + 1⟩ ∧
    ∀ v ∈ vs, v.2.title.sameAscii w.2.title = false
  revisions : (t.rows.map Row.revision).Nodup ∧ (∀ r ∈ t.rows, 1 ≤ r.revision) ∧ lastRevision t.rows = ws.length
  listing : t.all = (latestBy (fun r => r.title.asciiLower) (numbered 0 ws)).reverse
  /-- A title is found as it was last written. -/
  found : ∀ title, (∀ w ∈ ws, same w.2.title title = w.2.title.sameAscii title) →
    t.row? title = (numbered 0 ws).findRev? fun r => r.title.sameAscii title
  /-- A title is missing if it was never written. -/
  missing : ∀ title, (∀ w ∈ ws, same w.2.title title = w.2.title.sameAscii title) →
    (t.row title = .error (.titleNotFound title) ↔ ∀ w ∈ ws, w.2.title.sameAscii title = false)

theorem sameAscii_eq (s t : Text) : s.sameAscii t = decide (s.asciiLower = t.asciiLower) := by
  rw [Text.sameAscii, Bool.eq_iff_iff]
  simp

theorem exists_of_mem_numbered {n : Nat} {ws : List (Text × Entry)} {r : Row} (h : r ∈ numbered n ws) :
    ∃ w ∈ ws, w.2.title = r.title := by
  have htitle := List.mem_map_of_mem (f := Row.title) h
  rw [map_title_numbered] at htitle
  exact List.mem_map.1 htitle

section
variable {t : Table} {ws : List (Text × Entry)} (h : t.Filed ws)
include h

theorem Filed.row? (title : Text) (hnocase : ∀ w ∈ ws, same w.2.title title = w.2.title.sameAscii title) :
    t.row? title = (numbered 0 ws).findRev? fun r => r.title.sameAscii title := by
  have hkey : (fun r : Row => same r.title title) = fun r => decide (key r.title = key title) := by
    funext r
    rw [Bool.eq_iff_iff, same_iff, decide_eq_true_iff]
  rw [Table.row?, hkey, ← find?_eq_of_perm h.ranked.perm (nodup_map_latestBy _ _), find?_latestBy, ← hkey]
  simp only [List.findRev?_eq_find?_reverse]
  refine List.find?_congr fun r hr => ?_
  obtain ⟨w, hw, hwr⟩ := exists_of_mem_numbered (List.mem_reverse.1 hr)
  rw [← hwr]
  exact hnocase w hw

theorem Filed.row_eq_error_iff (title : Text)
    (hnocase : ∀ w ∈ ws, same w.2.title title = w.2.title.sameAscii title) :
    t.row title = .error (.titleNotFound title) ↔ ∀ w ∈ ws, w.2.title.sameAscii title = false := by
  have hnone : t.row title = .error (.titleNotFound title) ↔ t.row? title = none := by
    unfold Table.row
    cases t.row? title <;> simp
  rw [hnone, h.row? title hnocase, List.findRev?_eq_find?_reverse, List.find?_eq_none]
  simp only [List.mem_reverse, Bool.not_eq_true]
  have hmap := map_title_numbered 0 ws
  constructor
  · intro hfree w hw
    have htitle : w.2.title ∈ (numbered 0 ws).map Row.title := by
      rw [hmap]
      exact List.mem_map_of_mem hw
    obtain ⟨r, hr, hrw⟩ := List.mem_map.1 htitle
    rw [← hrw]
    exact hfree r hr
  · intro hfree r hr
    obtain ⟨w, hw, hwr⟩ := exists_of_mem_numbered hr
    rw [← hwr]
    exact hfree w hw

variable (hnocase : ∀ v ∈ ws, ∀ w ∈ ws, same v.2.title w.2.title = v.2.title.sameAscii w.2.title)
include hnocase

theorem Filed.ranked_ascii : Ranked t.rows (latestBy (fun r => r.title.asciiLower) (numbered 0 ws)) := by
  have hkey : ∀ r ∈ numbered 0 ws, ∀ r' ∈ numbered 0 ws,
      key r.title = key r'.title ↔ r.title.asciiLower = r'.title.asciiLower := by
    intro r hr r' hr'
    obtain ⟨v, hv, hvr⟩ := exists_of_mem_numbered hr
    obtain ⟨w, hw, hwr⟩ := exists_of_mem_numbered hr'
    rw [← hvr, ← hwr, ← same_iff, hnocase v hv w hw, sameAscii_eq, decide_eq_true_iff]
  rw [← latestBy_congr hkey]
  exact h.ranked

theorem Filed.mem_rows_iff (r : Row) : r ∈ t.rows ↔ ∃ us w vs, ws = us ++ w :: vs ∧
    r = ⟨w.2.title, w.2.status, w.1, us.length + 1⟩ ∧ ∀ v ∈ vs, v.2.title.sameAscii w.2.title = false := by
  have hlater : ∀ (n : Nat) (w : Text × Entry) (vs : List (Text × Entry)),
      w.2.title.asciiLower ∉ (numbered n vs).map (fun r => r.title.asciiLower) ↔
        ∀ v ∈ vs, v.2.title.sameAscii w.2.title = false := by
    intro n w vs
    have hmap : (numbered n vs).map (fun r => r.title.asciiLower) = vs.map fun v => v.2.title.asciiLower := by
      have htitles := congrArg (List.map Text.asciiLower) (map_title_numbered n vs)
      simpa [Function.comp_def] using htitles
    simp [hmap, sameAscii_eq]
  rw [← (h.ranked_ascii hnocase).perm.mem_iff, mem_latestBy_iff]
  constructor
  · rintro ⟨rs, rs', heq, hfree⟩
    obtain ⟨us, w, vs, hws, hr, rfl⟩ := numbered_eq_append heq
    rw [Nat.zero_add] at hr
    subst hr
    exact ⟨us, w, vs, hws, rfl, (hlater _ w vs).1 hfree⟩
  · rintro ⟨us, w, vs, rfl, rfl, hfree⟩
    refine ⟨numbered 0 us, numbered (us.length + 1) vs, ?_, (hlater _ w vs).2 hfree⟩
    rw [numbered_append, Nat.zero_add]
    rfl

theorem Filed.tells : t.Tells ws where
  distinct := by
    have hnodup := ((h.ranked_ascii hnocase).perm.map _).nodup_iff.1 (nodup_map_latestBy _ _)
    refine (List.pairwise_map.1 hnodup).imp fun hne => ?_
    simpa [sameAscii_eq] using hne
  ordinal := h.mem_rows_iff hnocase
  revisions := by
    refine ⟨?_, fun r hr => ?_, h.last⟩
    · exact (h.ranked.perm.map _).nodup_iff.1 (List.pairwise_map.2 (h.ranked.rising.imp Nat.ne_of_lt))
    · obtain ⟨us, w, vs, -, rfl, -⟩ := (h.mem_rows_iff hnocase r).1 hr
      exact Nat.le_add_left 1 us.length
  listing := (h.ranked_ascii hnocase).newestFirst
  found := h.row?
  missing := h.row_eq_error_iff

end

end Table

/-! ## Open and closed -/

/-- What befalls a catalog in a file. -/
inductive Event where
  | write (time : Text) (w : Entry)
  | close
  | reopen

namespace Catalog

def atTime (time : Text) (c : Catalog Table) : Catalog Table := { c with holdings := { c.holdings with clock := time } }

def befall (c : Catalog Table) : Event → Catalog Table
  | .write time w => ((c.atTime time).write w.title w.status).2
  | .close => c.close
  | .reopen => c.reopen

/-- Whether a catalog that is open or not is open after the events. -/
def opened : Bool → List Event → Bool
  | o, [] => o
  | o, .write _ _ :: es => opened o es
  | _, .close :: es => opened false es
  | _, .reopen :: es => opened true es

/-- The writes that find the catalog open, with their times. -/
def taken : Bool → List Event → List (Text × Entry)
  | _, [] => []
  | o, .write time w :: es => if o then (time, w) :: taken o es else taken o es
  | _, .close :: es => taken false es
  | _, .reopen :: es => taken true es

/-- The catalog is open or not, and files the writes. -/
structure Stands (o : Bool) (c : Catalog Table) (ws : List (Text × Entry)) : Prop where
  faults : c.faults = if o then Faults.none else Faults.closed
  filed : c.holdings.Filed ws

section
variable {c : Catalog Table} {o : Bool} {ws : List (Text × Entry)} (h : Stands o c ws)
include h

theorem Stands.write (time : Text) (w : Entry) :
    ((c.atTime time).write w.title w.status).1 = (if o then .ok () else .error (.database .closed)) ∧
      ((c.atTime time).write w.title w.status).2.holdings =
        (if o then (c.atTime time).holdings.put w.title w.status else (c.atTime time).holdings) ∧
      ((c.atTime time).write w.title w.status).2.faults = c.faults := by
  have hfaults : (c.atTime time).faults.write w.title = if o then none else some (.database .closed) := by
    rw [atTime, h.faults]
    cases o <;> rfl
  rw [Catalog.write, hfaults]
  cases o <;> exact ⟨rfl, rfl, rfl⟩

theorem Stands.look {α : Type} (f : Table → α) :
    c.look f = if o then .ok (f c.holdings) else .error (.database .closed) := by
  unfold Catalog.look
  rw [h.faults]
  cases o <;> rfl

theorem Stands.befall (e : Event) : Stands (opened o [e]) (c.befall e) (ws ++ taken o [e]) := by
  cases e with
  | close => exact ⟨rfl, by rw [taken, taken, List.append_nil]; exact h.filed⟩
  | reopen => exact ⟨rfl, by rw [taken, taken, List.append_nil]; exact h.filed⟩
  | write time w =>
    obtain ⟨-, hheld, hfaults⟩ := h.write time w
    refine ⟨hfaults.trans h.faults, ?_⟩
    rw [Catalog.befall, hheld]
    cases o with
    | true => exact h.filed.put (time, w)
    | false =>
      rw [if_neg Bool.false_ne_true, taken, if_neg Bool.false_ne_true, taken, List.append_nil]
      exact ⟨h.filed.ranked, h.filed.last⟩

end

theorem Stands.befallAll : ∀ {es : List Event} {c : Catalog Table} {o : Bool} {ws : List (Text × Entry)},
    Stands o c ws → Stands (opened o es) (es.foldl Catalog.befall c) (ws ++ taken o es)
  | [], _, _, ws, h => by rwa [taken, List.append_nil]
  | e :: es, c, o, ws, h => by
    have ih : Stands (opened (opened o [e]) es) (es.foldl Catalog.befall (c.befall e))
        (ws ++ taken o [e] ++ taken (opened o [e]) es) := (h.befall e).befallAll
    have hopened : opened o (e :: es) = opened (opened o [e]) es := by cases e <;> rfl
    have htaken : taken o (e :: es) = taken o [e] ++ taken (opened o [e]) es := by
      cases e with
      | write time w => cases o <;> rfl
      | close => rfl
      | reopen => rfl
    rwa [List.append_assoc, ← htaken, ← hopened] at ih

/-- **A catalog in a file tells what it took.**  Let an empty one be written to, closed and opened again in any order,
and let titles be told apart by ASCII case alone.  Then its rows and what it finds are told by the writes it took while
it was open; and only while it is open does it take a write or answer. -/
theorem after_tells (es : List Event)
    (hnocase : ∀ v ∈ taken true es, ∀ w ∈ taken true es,
      Table.same v.2.title w.2.title = v.2.title.sameAscii w.2.title) :
    let c := es.foldl befall { holdings := {} }
    c.holdings.Tells (taken true es) ∧
      (∀ time (w : Entry), ((c.atTime time).write w.title w.status).1 =
        if opened true es then .ok () else .error (.database .closed)) ∧
      (∀ time (w : Entry), opened true es = false →
        ((c.atTime time).write w.title w.status).2.holdings.rows = c.holdings.rows) ∧
      ∀ (α : Type) (f : Table → α),
        c.look f = if opened true es then .ok (f c.holdings) else .error (.database .closed) := by
  intro c
  have hstart : Stands true { holdings := {} } [] := ⟨rfl, Table.filed_nil⟩
  have h : Stands (opened true es) c (taken true es) := hstart.befallAll
  refine ⟨h.filed.tells hnocase, fun time w => (h.write time w).1, fun time w hclosed => ?_, fun α f => h.look f⟩
  rw [(h.write time w).2.1, hclosed]
  rfl

/-- *Heat* is written, then *Dune*, then *HEAT* while the catalog is closed and again when it is open: the row of *Heat*
gets the third revision. -/
theorem after_tells_reopened :
    let es : List Event := [.write "9:00".toList ⟨"Heat".toList, .wanted⟩, .write "9:10".toList ⟨"Dune".toList, .seen⟩,
      .close, .write "9:20".toList ⟨"HEAT".toList, .seen⟩, .reopen, .write "9:30".toList ⟨"HEAT".toList, .disliked⟩]
    let c := es.foldl befall { holdings := {} }
    c.holdings.rows = [⟨"HEAT".toList, .disliked, "9:30".toList, 3⟩, ⟨"Dune".toList, .seen, "9:10".toList, 2⟩] ∧
      (∀ v ∈ taken true es, ∀ w ∈ taken true es, Table.same v.2.title w.2.title = v.2.title.sameAscii w.2.title) ∧
      c.holdings.Tells (taken true es) ∧
      (∀ time (w : Entry), ((c.atTime time).write w.title w.status).1 = .ok ()) ∧
      ∀ (α : Type) (f : Table → α), c.look f = .ok (f c.holdings) := by
  intro es c
  have hnocase : ∀ v ∈ taken true es, ∀ w ∈ taken true es,
      Table.same v.2.title w.2.title = v.2.title.sameAscii w.2.title := by decide
  obtain ⟨htells, hwrite, -, hlook⟩ := after_tells es hnocase
  exact ⟨by decide, hnocase, htells, hwrite, hlook⟩

end Catalog
end WatchList
