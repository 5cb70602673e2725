import WatchList.Proofs.Latest
import WatchList.Proofs.Tidiness
/-!
# Changes of name

A change of name looks up the status of the old title and then makes one write or two: the new title takes that status,
and the old one, if it is another title, becomes disliked.

* On an open catalog these writes are all that happens (`Upkeep.rename_open`).  In memory the new title is there once,
  the bystanders stay as they are, and the change back finds the same status (`Upkeep.rename_shelf`).
* A request that is refused ends it (`Upkeep.of_rename_error`).  The old title is written last, so an error leaves it as
  it was (`Upkeep.rename_refused`).
-/
namespace WatchList

/-- The status of a title is that of the first entry which is the title. -/
theorem Shelf.statusOf?_eq (s : Shelf) (title : Text) :
    s.statusOf? title = (s.entries.filter fun e => e.title.lowercase = title.lowercase).head?.map Entry.status := by
  simp only [statusOf?, same_eq, List.head?_filter]

namespace Upkeep

/-- The writes of a change of name. -/
def renameWrites (old new : Text) (status : Status) : List Entry :=
  ⟨new, status⟩ :: if old.lowercase = new.lowercase then [] else [⟨old, .disliked⟩]

/-! ## Nothing is refused -/

section
variable {κ : Type} [Keeper κ] {old new : Text} {c : κ}

theorem rename_unnamed (h : Title.normalize old = [] ∨ Title.normalize new = []) :
    rename old new c = (.error .emptyTitle, c) := by
  have hempty : ((Title.normalize old).isEmpty || (Title.normalize new).isEmpty) = true := by simpa using h
  unfold rename
  dsimp only
  rw [if_pos hempty]
  rfl

theorem rename_named (hold : Title.normalize old ≠ []) (hnew : Title.normalize new ≠ []) :
    (rename old new : Job κ Status) = do
      let status := (← findStatus (Title.normalize old)).getD .wanted
      Work.write (Title.normalize new) status
      if (Title.normalize old).lowercase != (Title.normalize new).lowercase then
        Work.write (Title.normalize old) .disliked
      return status := by
  have hnamed : ¬ ((Title.normalize old).isEmpty || (Title.normalize new).isEmpty) = true := by simp [hold, hnew]
  unfold rename
  dsimp only
  rw [if_neg hnamed]

end

section
variable {σ : Type} [Holdings σ] {h : σ} {journal : List Entry}

theorem Work.write_open (title : Text) (status : Status) :
    Work.write title status ({ holdings := h, journal } : Catalog σ) =
      (.ok (), { holdings := Holdings.put title status h, journal := journal ++ [⟨title, status⟩] }) := rfl

/-- **A change of name on an open catalog** is its writes. -/
theorem rename_open {old new : Text} {found : Option Status}
    (hfind : findStatus (Title.normalize old) ({ holdings := h, journal } : Catalog σ) =
      (.ok found, { holdings := h, journal }))
    (hold : Title.normalize old ≠ []) (hnew : Title.normalize new ≠ []) :
    let ws := renameWrites (Title.normalize old) (Title.normalize new) (found.getD .wanted)
    rename old new ({ holdings := h, journal } : Catalog σ) =
      (.ok (found.getD .wanted), { holdings := Holdings.fill h ws, journal := journal ++ ws }) := by
  intro ws
  rw [rename_named hold hnew, Job.bind_of_ok hfind, Job.bind_of_ok (Work.write_open _ _)]
  by_cases hsame : (Title.normalize old).lowercase = (Title.normalize new).lowercase
  · have hws : ws = [⟨Title.normalize new, found.getD .wanted⟩] := by simp [ws, renameWrites, hsame]
    rw [if_neg (by simpa using hsame), hws]
    rfl
  · have hws : ws = [⟨Title.normalize new, found.getD .wanted⟩] ++ [⟨Title.normalize old, .disliked⟩] := by
      simp [ws, renameWrites, hsame]
    rw [if_pos (by simpa using hsame), Job.bind_of_ok (Work.write_open _ _), hws, ← List.append_assoc]
    rfl

end

/-! ## In memory -/

theorem findStatus_shelf {s : Shelf} (h : Shelf.view.Tidy s) (journal : List Entry) (raw : Text) :
    findStatus (Title.normalize raw) ({ holdings := s, journal } : Catalog Shelf) =
      (.ok (s.statusOf? (Title.normalize raw)), { holdings := s, journal }) := by
  have hlist : ∀ status, Work.list status ({ holdings := s, journal } : Catalog Shelf) =
      (.ok (s.titles status), { holdings := s, journal }) := fun _ => rfl
  rw [findStatus, statusUnder_eq hlist, Shelf.statusOf?_of_tidy h, Title.normalize_normalize]

theorem clean_of_mem_renameWrites {old new : Text} {status : Status} (hold : Title.Clean old) (hnew : Title.Clean new) :
    ∀ w ∈ renameWrites old new status, Title.Clean w.title := by
  unfold renameWrites
  refine List.forall_mem_cons.2 ⟨hnew, fun w hw => ?_⟩
  split at hw
  · cases hw
  · rw [List.mem_singleton.1 hw]
    exact hold

section
variable (es : List Entry) (old new : Text) (status : Status)

theorem filter_new_renameWrites :
    (overwriteAll Text.lowercase es (renameWrites old new status)).filter (fun e => e.title.lowercase = new.lowercase) =
      [⟨new, status⟩] := by
  have hnew := filter_key_overwrite Text.lowercase es ⟨new, status⟩
  unfold renameWrites
  split
  · exact hnew
  · rename_i hne
    exact (filter_key_overwrite_of_ne Text.lowercase hne _).trans hnew

theorem filter_old_renameWrites (hne : old.lowercase ≠ new.lowercase) :
    (overwriteAll Text.lowercase es (renameWrites old new status)).filter (fun e => e.title.lowercase = old.lowercase) =
      [⟨old, .disliked⟩] := by
  rw [renameWrites, if_neg hne]
  exact filter_key_overwrite Text.lowercase _ ⟨old, .disliked⟩

theorem filter_others_renameWrites :
    (overwriteAll Text.lowercase es (renameWrites old new status)).filter
        (fun e => e.title.lowercase ≠ old.lowercase ∧ e.title.lowercase ≠ new.lowercase) =
      es.filter fun e => e.title.lowercase ≠ old.lowercase ∧ e.title.lowercase ≠ new.lowercase := by
  have hothers : (fun e : Entry => decide (e.title.lowercase ≠ old.lowercase ∧ e.title.lowercase ≠ new.lowercase)) =
      untouched Text.lowercase (renameWrites old new status) := by
    funext e
    rw [Bool.eq_iff_iff]
    by_cases hsame : old.lowercase = new.lowercase
    · simp [untouched, renameWrites, keys, hsame]
    · simp [untouched, renameWrites, keys, hsame, and_comm]
  rw [hothers]
  exact filter_untouched_overwriteAll _ _ _

end

/-- **A change of name in memory.**  Let every title of a shelf be clean, and there once.  A text that names no title is
refused, and nothing is written.  Otherwise the answer is the status of the old title, or that it is wanted if it is
unknown.  Then the new title is there once, under this status and in its spelling; the old one, if it is another title,
is there once, disliked, and the change back answers the same status; the others are as they were, in their order. -/
theorem rename_shelf (s : Shelf) (hnodup : (keys Text.lowercase s.entries).Nodup)
    (hclean : ∀ e ∈ s.entries, Title.Clean e.title) (journal : List Entry) (old new : Text) :
    let c : Catalog Shelf := { holdings := s, journal }
    let o := Title.normalize old
    let n := Title.normalize new
    let status := (s.statusOf? o).getD .wanted
    let d := (rename old new c).2
    let es := d.holdings.entries
    (o = [] ∨ n = [] → rename old new c = (.error .emptyTitle, c)) ∧
      (o ≠ [] → n ≠ [] → (rename old new c).1 = .ok status ∧
        es.filter (fun e => e.title.lowercase = n.lowercase) = [⟨n, status⟩] ∧ d.holdings.statusOf? n = some status ∧
        (o.lowercase ≠ n.lowercase →
          es.filter (fun e => e.title.lowercase = o.lowercase) = [⟨o, .disliked⟩] ∧
          d.holdings.statusOf? o = some .disliked ∧ (rename new old d).1 = .ok status) ∧
        es.filter (fun e => e.title.lowercase ≠ o.lowercase ∧ e.title.lowercase ≠ n.lowercase) =
          s.entries.filter fun e => e.title.lowercase ≠ o.lowercase ∧ e.title.lowercase ≠ n.lowercase) := by
  intro c o n status d es
  refine ⟨rename_unnamed, fun ho hn => ?_⟩
  have htidy : Shelf.view.Tidy s := ⟨s.entries, ⟨rfl, hnodup⟩, hclean⟩
  have hfirst := rename_open (findStatus_shelf htidy journal old) ho hn
  have hd : d = { holdings := Holdings.fill s (renameWrites o n status), journal := journal ++ renameWrites o n status } :=
    congrArg Prod.snd hfirst
  have hes : es = overwriteAll Text.lowercase s.entries (renameWrites o n status) := by
    rw [← Shelf.entries_fill, show es = d.holdings.entries from rfl, hd]
  have hnew : es.filter (fun e => e.title.lowercase = n.lowercase) = [⟨n, status⟩] := by
    rw [hes]
    exact filter_new_renameWrites _ _ _ _
  have hstatus : d.holdings.statusOf? n = some status := by
    rw [Shelf.statusOf?_eq, hnew]
    rfl
  refine ⟨congrArg Prod.fst hfirst, hnew, hstatus, fun hne => ?_, ?_⟩
  · have hold : es.filter (fun e => e.title.lowercase = o.lowercase) = [⟨o, .disliked⟩] := by
      rw [hes]
      exact filter_old_renameWrites _ _ _ _ hne
    refine ⟨hold, by rw [Shelf.statusOf?_eq, hold]; rfl, ?_⟩
    -- the change back is a change of name on what the first one left, which is as tidy
    have htidy' : Shelf.view.Tidy (Holdings.fill s (renameWrites o n status)) :=
      htidy.fill (clean_of_mem_renameWrites (Title.clean_normalize ho) (Title.clean_normalize hn))
    rw [hd] at hstatus ⊢
    rw [rename_open (findStatus_shelf htidy' _ new) hn ho, hstatus]
    rfl
  · rw [hes]
    exact filter_others_renameWrites _ _ _ _

/-- A title written in lower case, with its year added, and back. -/
theorem rename_shelf_year :
    let s : Shelf := ⟨[⟨"Heat".toList, .seen⟩, ⟨"Dune".toList, .wanted⟩, ⟨"Alien".toList, .disliked⟩]⟩
    let c : Catalog Shelf := { holdings := s }
    let d := (rename "“heat”".toList " Heat  (1995)".toList c).2
    (keys Text.lowercase s.entries).Nodup ∧ (∀ e ∈ s.entries, Title.Clean e.title) ∧
      d.holdings.statusOf? "Heat (1995)".toList = some .seen ∧
      (rename " Heat  (1995)".toList "“heat”".toList d).1 = .ok .seen := by
  intro s c d
  have hnodup : (keys Text.lowercase s.entries).Nodup := by decide
  have hclean : ∀ e ∈ s.entries, Title.Clean e.title := by decide
  obtain ⟨-, hnamed⟩ := rename_shelf s hnodup hclean [] "“heat”".toList " Heat  (1995)".toList
  obtain ⟨-, -, hstatus, hback, -⟩ := hnamed (by decide) (by decide)
  exact ⟨hnodup, hclean, hstatus, (hback (by decide)).2.2⟩

/-! ## What an error leaves -/

/-- **Where a change of name can end in an error**: a text names no title, a listing is refused, or a write is. -/
theorem of_rename_error {κ : Type} [Keeper κ] {old new : Text} {c d : κ} {e : Error}
    (h : rename old new c = (.error e, d)) :
    let o := Title.normalize old
    let n := Title.normalize new
    (e = .emptyTitle ∧ d = c) ∨ findStatus o c = (.error e, d) ∨
      ∃ found c', findStatus o c = (.ok found, c') ∧
        (Work.write n (found.getD .wanted) c' = (.error e, d) ∨
          ∃ c'', Work.write n (found.getD .wanted) c' = (.ok (), c'') ∧ o.lowercase ≠ n.lowercase ∧
            Work.write o .disliked c'' = (.error e, d)) := by
  intro o n
  by_cases hunnamed : o = [] ∨ n = []
  · rw [rename_unnamed hunnamed] at h
    cases h
    exact .inl ⟨rfl, rfl⟩
  obtain ⟨ho, hn⟩ := not_or.1 hunnamed
  rw [rename_named ho hn] at h
  rcases Job.of_bind_error h with hfind | ⟨found, c', hfind, h⟩
  · exact .inr (.inl hfind)
  refine .inr (.inr ⟨found, c', hfind, ?_⟩)
  rcases Job.of_bind_error h with hnew | ⟨_, c'', hnew, h⟩
  · exact .inl hnew
  by_cases hsame : o.lowercase = n.lowercase
  · rw [if_neg (by simpa using hsame)] at h
    cases h
  rw [if_pos (by simpa using hsame)] at h
  rcases Job.of_bind_error h with hold | ⟨_, _, _, h⟩
  · exact .inr ⟨c'', hnew, hsame, hold⟩
  · cases h

end Upkeep

namespace Fickle
variable {σ : Type} [Holdings σ] {title : Text} {status : Status} {c d : Fickle σ} {e : Error}

/-- Nothing was written between the two. -/
structure Held (c d : Fickle σ) : Prop where
  holdings : d.holdings = c.holdings
  written : d.written = c.written
  refuses : d.refuses = c.refuses

/-- Listings write nothing. -/
theorem kept_held : KeptFor (fun _ => False) (Held (σ := σ)) where
  refl _ := ⟨rfl, rfl, rfl⟩
  trans hcd hde := ⟨hde.holdings.trans hcd.holdings, hde.written.trans hcd.written, hde.refuses.trans hcd.refuses⟩
  write h := h.elim
  list status c := by
    change Held c (Work.list status c).2
    rcases list_cases status c with ⟨-, h⟩ | ⟨e, -, h⟩
    all_goals
      rw [h]
      exact ⟨rfl, rfl, rfl⟩

theorem of_write_error (h : Work.write title status c = (.error e, d)) :
    c.refuses (.write ⟨title, status⟩ :: c.asked) = some e ∧ d = c.noting (.write ⟨title, status⟩) := by
  rcases write_cases title status c with ⟨-, hw⟩ | ⟨e', hrefused, hw⟩
  · cases hw.symm.trans h
  · cases hw.symm.trans h
    exact ⟨hrefused, rfl⟩

theorem of_write_ok (h : Work.write title status c = (.ok (), d)) : d = c.granting [⟨title, status⟩] := by
  rcases write_cases title status c with ⟨-, hw⟩ | ⟨e', -, hw⟩
  · cases hw.symm.trans h
    rfl
  · cases hw.symm.trans h

end Fickle

namespace Upkeep

/-- What was written when a change of name ends in an error: nothing, or the new title, before the write of the old one
was refused. -/
theorem written_of_rename_error {σ : Type} [Holdings σ] {old new : Text} {c d : Fickle σ} {e : Error}
    (h : rename old new c = (.error e, d)) :
    let o := Title.normalize old
    let n := Title.normalize new
    d.holdings = c.holdings ∧ d.written = c.written ∨
      ∃ status asked, o.lowercase ≠ n.lowercase ∧ d.holdings = Holdings.put n status c.holdings ∧
        d.written = c.written ++ [⟨n, status⟩] ∧ d.asked = .write ⟨o, .disliked⟩ :: .write ⟨n, status⟩ :: asked ∧
        c.refuses d.asked = some e := by
  intro o n
  have hheld : Fickle.Held c (findStatus o c).2 := keeps_statusUnder Fickle.kept_held _ _ c
  rcases of_rename_error h with ⟨-, rfl⟩ | hfind | ⟨found, c', hfind, hwrite⟩
  · exact .inl ⟨rfl, rfl⟩
  · rw [hfind] at hheld
    exact .inl ⟨hheld.holdings, hheld.written⟩
  rw [hfind] at hheld
  -- by now the status is known, and only the two writes are left to fail
  rcases hwrite with hnew | ⟨c'', hnew, hne, hold⟩
  · obtain ⟨-, rfl⟩ := Fickle.of_write_error hnew
    exact .inl ⟨hheld.holdings, hheld.written⟩
  · obtain rfl := Fickle.of_write_ok hnew
    obtain ⟨hrefused, rfl⟩ := Fickle.of_write_error hold
    have hput := congrArg (Holdings.put n (found.getD .wanted)) hheld.holdings
    have hwritten := congrArg (· ++ [⟨n, found.getD .wanted⟩]) hheld.written
    refine .inr ⟨found.getD .wanted, c'.asked, hne, hput, hwritten, rfl, ?_⟩
    rw [← hheld.refuses]
    exact hrefused

/-- **An error leaves the old title as it was.**  Let a change of name in memory end in an error, whichever listings and
writes are refused.  Then the entry of the old title is the same, unless the new title is the same title; and every entry
but that of the new title is the same, in the same order.  Nothing at all was written unless it was the write of the old
title that was refused, after the new title, which is another, was written. -/
theorem rename_refused {old new : Text} {c d : Fickle Shelf} {e : Error} (h : rename old new c = (.error e, d)) :
    let o := Title.normalize old
    let n := Title.normalize new
    (o.lowercase ≠ n.lowercase → d.holdings.entries.filter (fun x => x.title.lowercase = o.lowercase) =
        c.holdings.entries.filter fun x => x.title.lowercase = o.lowercase) ∧
      d.holdings.entries.filter (fun x => x.title.lowercase ≠ n.lowercase) =
        c.holdings.entries.filter (fun x => x.title.lowercase ≠ n.lowercase) ∧
      (o.lowercase = n.lowercase → d.holdings = c.holdings ∧ d.written = c.written) ∧
      (d.holdings = c.holdings ∧ d.written = c.written ∨
        ∃ status asked, o.lowercase ≠ n.lowercase ∧ d.holdings = Holdings.put n status c.holdings ∧
          d.written = c.written ++ [⟨n, status⟩] ∧ d.asked = .write ⟨o, .disliked⟩ :: .write ⟨n, status⟩ :: asked ∧
          c.refuses d.asked = some e) := by
  intro o n
  rcases written_of_rename_error h with ⟨hheld, hnone⟩ | ⟨status, asked, hne, hput, hrest⟩
  · rw [hheld]
    exact ⟨fun _ => rfl, rfl, fun _ => ⟨rfl, hnone⟩, .inl ⟨rfl, hnone⟩⟩
  · have hentries : d.holdings.entries = overwrite Text.lowercase c.holdings.entries ⟨n, status⟩ := by
      rw [hput]
      exact Shelf.entries_put n status c.holdings
    rw [hentries]
    refine ⟨fun _ => ?_, ?_, fun hsame => absurd hsame hne, .inr ⟨status, asked, hne, hput, hrest⟩⟩
    · exact filter_key_overwrite_of_ne Text.lowercase (Ne.symm hne) _
    · exact filter_overwrite Text.lowercase (by simp) (fun x hx => by simpa using hx) _

/-- The write of the old title is the fourth request that is made, and the disk is full by then. -/
theorem rename_refused_last :
    let c : Fickle Shelf := {
      holdings := ⟨[⟨"Heat".toList, .seen⟩, ⟨"Dune".toList, .wanted⟩]⟩
      refuses := fun asked => if asked.length = 4 then some (.storage "disk full".toList) else none }
    let d := (rename "heat".toList "Heat (1995)".toList c).2
    let n : Text := "Heat (1995)".toList
    rename "heat".toList n c = (.error (.storage "disk full".toList), d) ∧
      d.holdings.entries = c.holdings.entries ++ [⟨n, .seen⟩] ∧
      d.holdings.entries.filter (fun x => x.title.lowercase ≠ n.lowercase) =
        c.holdings.entries.filter fun x => x.title.lowercase ≠ n.lowercase := by
  intro c d n
  have h : rename "heat".toList n c = (.error (.storage "disk full".toList), d) := Prod.ext (by decide +kernel) rfl
  obtain ⟨-, hothers, -⟩ := rename_refused h
  exact ⟨h, by decide +kernel, hothers⟩

end Upkeep
end WatchList
