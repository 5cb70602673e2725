import WatchList.Error
import WatchList.Status
/-!
# Catalogs

A catalog knows each title's status.  What it holds can do two things, which make up the class `Holdings`:

* `Holdings.put` writes a title with a status; a title that is already there takes the new spelling and status;
* `Holdings.titles` lists the titles of one status, the most recently written first.

The tools ask the same two things of a **keeper**, which may refuse: `Keeper.write` and `Keeper.list` answer with an error
or do what they are asked.  A `Catalog` is a keeper that refuses what its `Faults` say; a refused write changes no title.
It keeps a **journal** of every write that was asked of it, refused ones included.

A `Job` for a keeper may end in an error.  What was written before the error stays written: a job carries the keeper
past the error.  `Work` is a job for a catalog.
-/
namespace WatchList

structure Entry where
  title : Text
  status : Status
deriving DecidableEq, Repr

/-- A store of titles with their statuses. -/
class Holdings (σ : Type) where
  put : Text → Status → σ → σ
  /-- The titles of a status, the most recently written first. -/
  titles : Status → σ → List Text

/-- What the tools ask for: each request is done or refused, and leaves the keeper as the second component says. -/
class Keeper (κ : Type) where
  write : Text → Status → κ → Except Error Unit × κ
  /-- The titles of a status, the most recently written first. -/
  list : Status → κ → Except Error (List Text) × κ

/-- Which requests a catalog refuses, and with what error. -/
structure Faults where
  write : Text → Option Error
  list : Status → Option Error
  look : Option Error

namespace Faults

def none : Faults := ⟨fun _ => .none, fun _ => .none, .none⟩

/-- Everything is refused: the catalog is closed. -/
def closed : Faults :=
  ⟨fun _ => some (.database .closed), fun _ => some (.database .closed), some (.database .closed)⟩

/-- Writes of the titles and listings of the statuses are refused. -/
def of (titles : List Text) (statuses : List Status) : Faults where
  write t := if titles.contains t then some (.storage "disk full".toList) else .none
  list s := if statuses.contains s then some (.storage "read failed".toList) else .none
  look := .none

end Faults

/-- Holdings, the requests that are refused, and the writes that were asked for, oldest first. -/
structure Catalog (σ : Type) where
  holdings : σ
  faults : Faults := Faults.none
  journal : List Entry := []

namespace Catalog
variable {σ : Type}

def write [Holdings σ] (title : Text) (status : Status) (c : Catalog σ) : Except Error Unit × Catalog σ :=
  let journal := c.journal ++ [⟨title, status⟩]
  match c.faults.write title with
  | some e => (.error e, { c with journal })
  | none => (.ok (), { c with holdings := Holdings.put title status c.holdings, journal })

def list [Holdings σ] (status : Status) (c : Catalog σ) : Except Error (List Text) :=
  match c.faults.list status with
  | some e => .error e
  | none => .ok (Holdings.titles status c.holdings)

def look (f : σ → α) (c : Catalog σ) : Except Error α :=
  match c.faults.look with
  | some e => .error e
  | none => .ok (f c.holdings)

instance [Holdings σ] : Keeper (Catalog σ) where
  write := write
  list status c := (c.list status, c)

@[simp] theorem keeper_write [Holdings σ] (title : Text) (status : Status) (c : Catalog σ) :
    Keeper.write title status c = c.write title status := rfl

end Catalog

/-! ## Jobs -/

/-- What a keeper is asked to do, with a result or an error; the keeper is carried past an error. -/
abbrev Job (κ : Type) := ExceptT Error (StateM κ)

abbrev Work (σ : Type) := Job (Catalog σ)

theorem Job.bind_of_ok {κ α β : Type} {w : Job κ α} {f : α → Job κ β} {c d : κ} {a : α} (h : w c = (.ok a, d)) :
    (w >>= f) c = f a d := by
  change ExceptT.bindCont f (w c).1 (w c).2 = f a d
  rw [h]
  rfl

theorem Job.bind_of_error {κ α β : Type} {w : Job κ α} {f : α → Job κ β} {c d : κ} {e : Error}
    (h : w c = (.error e, d)) : (w >>= f) c = (.error e, d) := by
  change ExceptT.bindCont f (w c).1 (w c).2 = (.error e, d)
  rw [h]
  rfl

/-- A job in two parts ends in an error where the first part does, or else where the second does. -/
theorem Job.of_bind_error {κ α β : Type} {w : Job κ α} {f : α → Job κ β} {c d : κ} {e : Error}
    (h : (w >>= f) c = (.error e, d)) : w c = (.error e, d) ∨ ∃ a c', w c = (.ok a, c') ∧ f a c' = (.error e, d) := by
  rcases hw : w c with ⟨e' | a, c'⟩
  · rw [Job.bind_of_error hw] at h
    cases h
    exact .inl rfl
  · rw [Job.bind_of_ok hw] at h
    exact .inr ⟨a, c', rfl, h⟩

/-- It has a result where both parts have one. -/
theorem Job.of_bind_ok {κ α β : Type} {w : Job κ α} {f : α → Job κ β} {c d : κ} {b : β}
    (h : (w >>= f) c = (.ok b, d)) : ∃ a c', w c = (.ok a, c') ∧ f a c' = (.ok b, d) := by
  rcases hw : w c with ⟨e | a, c'⟩
  · rw [Job.bind_of_error hw] at h
    cases h
  · rw [Job.bind_of_ok hw] at h
    exact ⟨a, c', rfl, h⟩

/-- What is done with the result of a job makes no error of it. -/
theorem Job.bind_pure_eq_error_iff {κ α β : Type} {w : Job κ α} {f : α → β} {c d : κ} {e : Error} :
    (w >>= fun a => pure (f a)) c = (.error e, d) ↔ w c = (.error e, d) := by
  refine ⟨fun h => ?_, bind_of_error⟩
  rcases of_bind_error h with hw | ⟨a, c', -, hpure⟩
  · exact hw
  · cases hpure

/-- Nor does it touch the keeper. -/
theorem Job.snd_bind_pure {κ α β : Type} (w : Job κ α) (f : α → β) (c : κ) :
    ((w >>= fun a => pure (f a)) c).2 = (w c).2 := by
  rcases h : w c with ⟨_ | a, d⟩
  · rw [bind_of_error h]
  · rw [bind_of_ok h]
    rfl

namespace Work
variable {κ : Type} [Keeper κ]

def write (title : Text) (status : Status) : Job κ Unit := fun c => Keeper.write title status c

def list (status : Status) : Job κ (List Text) := fun c => Keeper.list status c

/-- Writes the titles in turn with one status, up to the first that is refused. -/
def writeAll (status : Status) : List Text → Job κ Unit
  | [] => pure ()
  | t :: ts => do
    write t status
    writeAll status ts

end Work

namespace Catalog
variable {σ : Type} [Holdings σ] {c : Catalog σ} {title : Text}

/-- A write that the catalog does not refuse is carried out. -/
theorem write_granted (h : c.faults.write title = none) (status : Status) :
    Work.write title status c = (.ok (),
      { c with holdings := Holdings.put title status c.holdings, journal := c.journal ++ [⟨title, status⟩] }) := by
  change c.write title status = _
  rw [Catalog.write, h]

/-- A refused write stands in the journal, and that is all. -/
theorem write_refused {e : Error} (h : c.faults.write title = some e) (status : Status) :
    Work.write title status c = (.error e, { c with journal := c.journal ++ [⟨title, status⟩] }) := by
  change c.write title status = _
  rw [Catalog.write, h]

end Catalog

end WatchList
