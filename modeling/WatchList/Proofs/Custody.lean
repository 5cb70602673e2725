import WatchList.Execution
import WatchList.Library
import WatchList.Upkeep
import WatchList.Proofs.History
/-!
# Custody: what no tool does to a title

A tool reaches a keeper through its two requests only.  So what a write and a listing keep is kept by every tool
(`Tool.keeps`), whichever requests are refused, and whether or not the tool ends in an error.  What only the writes of
some titles keep is kept by the tools that write no others (`Tool.keepsFor`).

The keeper here is `Fickle`: whether it refuses a request may depend on all the requests so far, and all that a request can
do to it is said once (`Fickle.write_cases`, `Fickle.list_cases`).  What is kept is that the holdings are those from before
with the successful writes carried out on them (`Fickle.Went`).  So no title is lost, none is there twice, and those that
are not written stay as they are (`Tool.after_keeps_titles`).
-/
namespace WatchList

/-! ## What both requests keep -/

/-- A relation between a keeper before and after that holds across each request, and so across any number of them. -/
structure Kept {κ : Type} [Keeper κ] (R : κ → κ → Prop) : Prop where
  refl : ∀ c, R c c
  trans : ∀ {c d e}, R c d → R d e → R c e
  write : ∀ title status c, R c (Keeper.write title status c).2
  list : ∀ status c, R c (Keeper.list status c).2

/-- As `Kept`, but only across writes of titles of which `P` holds. -/
structure KeptFor {κ : Type} [Keeper κ] (P : Text → Prop) (R : κ → κ → Prop) : Prop where
  refl : ∀ c, R c c
  trans : ∀ {c d e}, R c d → R d e → R c e
  write : ∀ {title}, P title → ∀ status c, R c (Keeper.write title status c).2
  list : ∀ status c, R c (Keeper.list status c).2

theorem Kept.keptFor {κ : Type} [Keeper κ] {R : κ → κ → Prop} (hR : Kept R) (P : Text → Prop) : KeptFor P R where
  refl := hR.refl
  trans := hR.trans
  write _ := hR.write _
  list := hR.list

/-- The relation holds across the job, also if the job ends in an error. -/
def Job.Keeps {κ α : Type} (R : κ → κ → Prop) (w : Job κ α) : Prop := ∀ c, R c (w c).2

section
variable {κ : Type} [Keeper κ] {P : Text → Prop} {R : κ → κ → Prop} (hR : KeptFor P R)
include hR

namespace Job

theorem keeps_pure {α : Type} (a : α) : Keeps R (pure a : Job κ α) := fun c => hR.refl c

theorem keeps_throw {α : Type} (e : Error) : Keeps R (throw e : Job κ α) := fun c => hR.refl c

theorem keeps_bind {α β : Type} {w : Job κ α} {f : α → Job κ β} (hw : Keeps R w) (hf : ∀ a, Keeps R (f a)) :
    Keeps R (w >>= f) := by
  intro c
  have hc := hw c
  change R c (ExceptT.bindCont f (w c).1 (w c).2).2
  cases h : (w c).1 with
  | error e => exact hc
  | ok a => exact hR.trans hc (hf a (w c).2)

end Job

open Job

theorem Work.keeps_write {title : Text} (h : P title) (status : Status) :
    Keeps R (Work.write title status : Job κ Unit) := hR.write h status

theorem Work.keeps_list (status : Status) : Keeps R (Work.list status : Job κ (List Text)) := hR.list status

theorem Work.keeps_writeAll (status : Status) {titles : List Text} (h : ∀ t ∈ titles, P t) :
    Keeps R (Work.writeAll status titles : Job κ Unit) := by
  induction titles with
  | nil => exact keeps_pure hR ()
  | cons t ts ih =>
    refine keeps_bind hR (Work.keeps_write hR (h t List.mem_cons_self) status) fun _ => ?_
    exact ih fun s hs => h s (List.mem_cons_of_mem t hs)

/-! ## The tools -/

theorem Upkeep.keeps_prune (word : Text) (h : ∀ t, Title.normalize t = [] → P t) :
    Keeps R (Upkeep.prune word : Job κ Nat) := by
  refine keeps_bind hR (Work.keeps_list hR _) fun titles => ?_
  refine keeps_bind hR (Work.keeps_writeAll hR _ fun t ht => ?_) fun _ => keeps_pure hR _
  split at ht
  · cases ht
  · exact h t (by simpa using (List.mem_filter.1 ht).2)

theorem Upkeep.keeps_statusUnder (key : Text) (statuses : List Status) :
    Keeps R (Upkeep.statusUnder key statuses : Job κ (Option Status)) := by
  induction statuses with
  | nil => exact keeps_pure hR _
  | cons s ss ih =>
    refine keeps_bind hR (Work.keeps_list hR s) fun titles => ?_
    split
    · exact keeps_pure hR _
    · exact ih

theorem Plan.keeps_step {a : Action} (h : P a.title) (r : Report) (c : κ) : R c (Plan.step a r c).2 := by
  unfold Plan.step
  cases a.status? with
  | none => exact hR.refl c
  | some s =>
    have hw := hR.write h s c
    dsimp only
    rcases h : Keeper.write a.title s c with ⟨_ | _, d⟩ <;> rwa [h] at hw

theorem Plan.keeps_runFrom {p : Plan} (h : ∀ a ∈ p, P a.title) (r : Report) (c : κ) :
    R c (Plan.runFrom r p c).2 := by
  induction p generalizing r c with
  | nil => exact hR.refl c
  | cons a p ih =>
    refine hR.trans (Plan.keeps_step hR (h a List.mem_cons_self) r c) (ih (fun b hb => ?_) _ _)
    exact h b (List.mem_cons_of_mem a hb)

theorem Plan.keeps_interpret {instruction : Text} (h : ∀ a ∈ Plan.ofText instruction, P a.title) (c : κ) :
    R c (Plan.interpret instruction c).2 := by
  unfold Plan.interpret Plan.execute
  dsimp only
  split
  · exact hR.refl c
  split
  · exact hR.refl c
  · exact Plan.keeps_runFrom hR h {} c

variable (hP : ∀ raw, Title.normalize raw ≠ [] → P (Title.normalize raw))
include hP

theorem Bulk.keeps_put (status : Status) (titles : Text) : Keeps R (Bulk.put status titles : Job κ Nat) := by
  refine keeps_bind hR (Work.keeps_writeAll hR status fun t ht => ?_) fun _ => keeps_pure hR _
  obtain ⟨hmem, hne⟩ := List.mem_filter.1 ht
  obtain ⟨raw, -, rfl⟩ := List.mem_map.1 hmem
  exact hP raw (by simpa using hne)

theorem Library.keeps_put (status : Status) (raw : Text) : Keeps R (Library.put status raw : Job κ Text) := by
  unfold Library.put
  dsimp only
  split
  · exact keeps_throw hR _
  · rename_i hne
    exact keeps_bind hR (Work.keeps_write hR (hP raw (by simpa using hne)) _) fun _ => keeps_pure hR _

theorem Library.keeps_add (raw : Text) : Keeps R (Library.add raw : Job κ Added) := by
  unfold Library.add
  split
  · exact keeps_bind hR (Bulk.keeps_put hR hP _ _) fun _ => keeps_pure hR _
  · exact keeps_bind hR (Library.keeps_put hR hP _ _) fun _ => keeps_pure hR _

theorem Upkeep.keeps_rename (old new : Text) : Keeps R (Upkeep.rename old new : Job κ Status) := by
  unfold Upkeep.rename
  dsimp only
  split
  · exact keeps_throw hR _
  · rename_i hne
    obtain ⟨hold, hnew⟩ : Title.normalize old ≠ [] ∧ Title.normalize new ≠ [] := by simpa using hne
    refine keeps_bind hR (Upkeep.keeps_statusUnder hR _ _) fun found => ?_
    refine keeps_bind hR (Work.keeps_write hR (hP new hnew) _) fun _ => ?_
    split
    · exact keeps_bind hR (Work.keeps_write hR (hP old hold) _) fun _ => keeps_pure hR _
    · exact keeps_pure hR _

end

/-- A tool with its arguments. -/
inductive Tool where
  | interpret (instruction : Text)
  | carryOut (plan : Plan)
  | add (raw : Text)
  | remove (raw : Text)
  | markSeen (raw : Text)
  | markDisliked (raw : Text)
  | setStatus (raw word : Text)
  | addMany (titles : Text)
  | removeMany (titles : Text)
  | setMany (titles word : Text)
  | prune (word : Text)
  | rename (old new : Text)

namespace Tool

/-- The keeper after the tool was used on it. -/
def after {κ : Type} [Keeper κ] (c : κ) : Tool → κ
  | interpret instruction => (Plan.interpret instruction c).2
  | carryOut plan => (plan.run c).2
  | add raw => (Library.add raw c).2
  | remove raw => (Library.remove raw c).2
  | markSeen raw => (Library.markSeen raw c).2
  | markDisliked raw => (Library.markDisliked raw c).2
  | setStatus raw word => (Library.setStatus raw word c).2
  | addMany titles => (Bulk.add titles c).2
  | removeMany titles => (Bulk.remove titles c).2
  | setMany titles word => (Bulk.setStatus titles word c).2
  | prune word => (Upkeep.prune word c).2
  | rename old new => (Upkeep.rename old new c).2

/-- `P` holds of every title that the tool may write. -/
def Within (P : Text → Prop) : Tool → Prop
  | interpret instruction => ∀ a ∈ Plan.ofText instruction, P a.title
  | carryOut plan => ∀ a ∈ plan, P a.title
  | prune _ => ∀ t, Title.normalize t = [] → P t
  | _ => ∀ raw, Title.normalize raw ≠ [] → P (Title.normalize raw)

/-- **What listings and the writes of a tool keep, the tool keeps.** -/
theorem keepsFor {κ : Type} [Keeper κ] {P : Text → Prop} {R : κ → κ → Prop} (hR : KeptFor P R) {t : Tool}
    (ht : t.Within P) (c : κ) : R c (t.after c) := by
  cases t with
  | interpret instruction => exact Plan.keeps_interpret hR ht c
  | carryOut plan => exact Plan.keeps_runFrom hR ht {} c
  | add raw => exact Library.keeps_add hR ht raw c
  | remove raw => exact Library.keeps_put hR ht .disliked raw c
  | markSeen raw => exact Library.keeps_put hR ht .seen raw c
  | markDisliked raw => exact Library.keeps_put hR ht .disliked raw c
  | setStatus raw word => exact Job.keeps_bind hR (Library.keeps_put hR ht _ raw) (fun _ => Job.keeps_pure hR _) c
  | addMany titles => exact Bulk.keeps_put hR ht .wanted titles c
  | removeMany titles => exact Bulk.keeps_put hR ht .disliked titles c
  | setMany titles word => exact Job.keeps_bind hR (Bulk.keeps_put hR ht _ titles) (fun _ => Job.keeps_pure hR _) c
  | prune word => exact Upkeep.keeps_prune hR word ht c
  | rename old new => exact Upkeep.keeps_rename hR ht old new c

/-- **What both requests keep, every tool keeps.** -/
theorem keeps {κ : Type} [Keeper κ] {R : κ → κ → Prop} (hR : Kept R) (t : Tool) (c : κ) : R c (t.after c) := by
  have hall : t.Within fun _ => True := by cases t <;> exact fun _ _ => trivial
  exact keepsFor (hR.keptFor _) hall c

end Tool

/-! ## A keeper that refuses as it likes -/

/-- What a keeper is asked for. -/
inductive Request where
  | write (w : Entry)
  | list (s : Status)

/-- Holdings, what is refused, the requests so far, the latest first, and the writes that were not refused, oldest first.
Whether a request is refused, and with what error, may depend on all that was asked before it. -/
structure Fickle (σ : Type) where
  holdings : σ
  refuses : List Request → Option Error
  asked : List Request := []
  written : List Entry := []

namespace Fickle
variable {σ : Type} [Holdings σ]

def write (title : Text) (status : Status) (c : Fickle σ) : Except Error Unit × Fickle σ :=
  let asked := .write ⟨title, status⟩ :: c.asked
  match c.refuses asked with
  | some e => (.error e, { c with asked })
  | none =>
    (.ok (), { c with asked, holdings := Holdings.put title status c.holdings, written := c.written ++ [⟨title, status⟩] })

def list (status : Status) (c : Fickle σ) : Except Error (List Text) × Fickle σ :=
  let asked := .list status :: c.asked
  match c.refuses asked with
  | some e => (.error e, { c with asked })
  | none => (.ok (Holdings.titles status c.holdings), { c with asked })

instance : Keeper (Fickle σ) where
  write := write
  list := list

/-- The keeper after it was asked for the writes and refused none. -/
def granting (c : Fickle σ) (ws : List Entry) : Fickle σ :=
  { c with
    holdings := Holdings.fill c.holdings ws
    asked := (ws.map .write).reverse ++ c.asked
    written := c.written ++ ws }

/-- The keeper after a request that changes nothing of what it holds: a listing, or one that is refused. -/
def noting (c : Fickle σ) (r : Request) : Fickle σ := { c with asked := r :: c.asked }

theorem write_granted {c : Fickle σ} {title : Text} {status : Status}
    (h : c.refuses (.write ⟨title, status⟩ :: c.asked) = none) :
    (Work.write title status : Job (Fickle σ) Unit) c = (.ok (), c.granting [⟨title, status⟩]) := by
  change Fickle.write title status c = _
  unfold Fickle.write
  dsimp only
  rw [h]
  rfl

theorem write_refused {c : Fickle σ} {title : Text} {status : Status} {e : Error}
    (h : c.refuses (.write ⟨title, status⟩ :: c.asked) = some e) :
    (Work.write title status : Job (Fickle σ) Unit) c = (.error e, c.noting (.write ⟨title, status⟩)) := by
  change Fickle.write title status c = _
  unfold Fickle.write
  dsimp only
  rw [h]
  rfl

theorem list_granted {c : Fickle σ} {status : Status} (h : c.refuses (.list status :: c.asked) = none) :
    (Work.list status : Job (Fickle σ) (List Text)) c =
      (.ok (Holdings.titles status c.holdings), c.noting (.list status)) := by
  change Fickle.list status c = _
  unfold Fickle.list
  dsimp only
  rw [h]
  rfl

theorem list_refused {c : Fickle σ} {status : Status} {e : Error} (h : c.refuses (.list status :: c.asked) = some e) :
    (Work.list status : Job (Fickle σ) (List Text)) c = (.error e, c.noting (.list status)) := by
  change Fickle.list status c = _
  unfold Fickle.list
  dsimp only
  rw [h]
  rfl

/-- **A write is carried out or refused.** -/
theorem write_cases (title : Text) (status : Status) (c : Fickle σ) :
    c.refuses (.write ⟨title, status⟩ :: c.asked) = none ∧
        (Work.write title status : Job (Fickle σ) Unit) c = (.ok (), c.granting [⟨title, status⟩]) ∨
      ∃ e, c.refuses (.write ⟨title, status⟩ :: c.asked) = some e ∧
        (Work.write title status : Job (Fickle σ) Unit) c = (.error e, c.noting (.write ⟨title, status⟩)) := by
  cases h : c.refuses (.write ⟨title, status⟩ :: c.asked) with
  | none => exact .inl ⟨rfl, write_granted h⟩
  | some e => exact .inr ⟨e, rfl, write_refused h⟩

/-- **A listing is given or refused**, and changes nothing. -/
theorem list_cases (status : Status) (c : Fickle σ) :
    c.refuses (.list status :: c.asked) = none ∧ (Work.list status : Job (Fickle σ) (List Text)) c =
        (.ok (Holdings.titles status c.holdings), c.noting (.list status)) ∨
      ∃ e, c.refuses (.list status :: c.asked) = some e ∧
        (Work.list status : Job (Fickle σ) (List Text)) c = (.error e, c.noting (.list status)) := by
  cases h : c.refuses (.list status :: c.asked) with
  | none => exact .inl ⟨rfl, list_granted h⟩
  | some e => exact .inr ⟨e, rfl, list_refused h⟩

/-- The later holdings are the earlier ones with the writes between carried out on them. -/
def Went (c d : Fickle σ) : Prop := ∃ ws, d.written = c.written ++ ws ∧ d.holdings = Holdings.fill c.holdings ws

theorem went_write (title : Text) (status : Status) (c : Fickle σ) : Went c (Work.write title status c).2 := by
  rcases write_cases title status c with ⟨-, h⟩ | ⟨e, -, h⟩
  · rw [h]
    exact ⟨[⟨title, status⟩], rfl, rfl⟩
  · rw [h]
    exact ⟨[], (List.append_nil _).symm, rfl⟩

theorem went_list (status : Status) (c : Fickle σ) : Went c (Work.list status c).2 := by
  rcases list_cases status c with ⟨-, h⟩ | ⟨e, -, h⟩
  all_goals
    rw [h]
    exact ⟨[], (List.append_nil _).symm, rfl⟩

theorem kept_went : Kept (Went (σ := σ)) where
  refl c := ⟨[], (List.append_nil _).symm, rfl⟩
  trans := by
    rintro c d e ⟨vs, hvs, hd⟩ ⟨ws, hws, he⟩
    exact ⟨vs ++ ws, by rw [hws, hvs, List.append_assoc], by rw [he, hd, Holdings.fill_append]⟩
  write := went_write
  list := went_list

end Fickle

/-! ## The titles of a catalog in memory -/

/-- The shelves that writes can lead to are those that have each title once. -/
theorem Shelf.reached_iff (s : Shelf) :
    (∃ ws, Holdings.fill {} ws = s) ↔ (keys Text.lowercase s.entries).Nodup := by
  constructor
  · rintro ⟨ws, rfl⟩
    have hempty : (keys Text.lowercase []).Nodup := List.nodup_nil
    rw [Shelf.entries_fill]
    exact nodup_keys_overwriteAll _ hempty ws
  · intro h
    have hentries : (Holdings.fill ({} : Shelf) s.entries).entries = s.entries :=
      (Shelf.entries_fill {} s.entries).trans (overwriteAll_of_nodup Text.lowercase h)
    exact ⟨s.entries, congrArg Shelf.mk hentries⟩

/-- **No tool loses or disturbs a title.**  Let every title of a shelf be there once, and let the requests be refused in
whatever pattern.  After any tool, with or without an error, the titles are those from before and those that were
written, each once; and the entries whose titles were not written are the same, in the same order. -/
theorem Tool.after_keeps_titles (t : Tool) (c : Fickle Shelf) (hc : (keys Text.lowercase c.holdings.entries).Nodup) :
    ∃ ws, (t.after c).written = c.written ++ ws ∧
      (∀ k ∈ keys Text.lowercase c.holdings.entries, k ∈ keys Text.lowercase (t.after c).holdings.entries) ∧
      (keys Text.lowercase (t.after c).holdings.entries).Nodup ∧
      (∀ k, k ∈ keys Text.lowercase (t.after c).holdings.entries ↔
        k ∈ keys Text.lowercase c.holdings.entries ∨ k ∈ keys Text.lowercase ws) ∧
      (t.after c).holdings.entries.filter (untouched Text.lowercase ws) =
        c.holdings.entries.filter (untouched Text.lowercase ws) := by
  obtain ⟨ws, hws, hheld⟩ := t.keeps Fickle.kept_went c
  have hentries : (t.after c).holdings.entries = overwriteAll Text.lowercase c.holdings.entries ws := by
    rw [hheld, Shelf.entries_fill]
  rw [hentries]
  have hmem := mem_keys_overwriteAll Text.lowercase c.holdings.entries ws
  exact ⟨ws, hws, fun k hk => (hmem k).2 (.inl hk), nodup_keys_overwriteAll _ hc ws, hmem,
    filter_untouched_overwriteAll _ _ ws⟩

/-- A list whose second write is refused: the entry of its first title is respelled, and the third is never written. -/
theorem Tool.after_keeps_titles_refused :
    let c : Fickle Shelf := {
      holdings := ⟨[⟨"Heat".toList, .wanted⟩, ⟨"Dune".toList, .seen⟩, ⟨"Alien".toList, .wanted⟩]⟩
      refuses := fun asked => if asked.length = 2 then some (.storage "disk full".toList) else none }
    let d := Tool.after c (.addMany "HEAT, alien, Drive".toList)
    d.holdings.entries = [⟨"Dune".toList, .seen⟩, ⟨"Alien".toList, .wanted⟩, ⟨"HEAT".toList, .wanted⟩] ∧
      (keys Text.lowercase c.holdings.entries).Nodup ∧
      ∃ ws, d.written = c.written ++ ws ∧
        (∀ k ∈ keys Text.lowercase c.holdings.entries, k ∈ keys Text.lowercase d.holdings.entries) ∧
        (keys Text.lowercase d.holdings.entries).Nodup ∧
        (∀ k, k ∈ keys Text.lowercase d.holdings.entries ↔
          k ∈ keys Text.lowercase c.holdings.entries ∨ k ∈ keys Text.lowercase ws) ∧
        d.holdings.entries.filter (untouched Text.lowercase ws) =
          c.holdings.entries.filter (untouched Text.lowercase ws) := by
  intro c d
  have hc : (keys Text.lowercase c.holdings.entries).Nodup := by decide
  exact ⟨by decide, hc, Tool.after_keeps_titles (.addMany "HEAT, alien, Drive".toList) c hc⟩

end WatchList
