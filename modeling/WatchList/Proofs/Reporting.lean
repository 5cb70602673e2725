import WatchList.Catalog.Shelf
import WatchList.Proofs.Summaries
/-!
# What a report accounts for

An action of a plan comes to one of three ends: its word stands for no status, its write is refused, or it is written
(`Ending`).  Each end is one **line** of the report, in one of its four lists (`Action.line`).  A run has one outcome for
each action, and enters their lines in order (`Plan.accounts_runFrom`).

Titles that were added are told apart by their small letters, and so are those that were removed: of several spellings the
first stays.  Status changes and errors are all there (`Report.Accounts`).
-/
namespace WatchList

/-! ## Titles told apart -/

/-- A key that some member has is the key of a member that stays. -/
theorem any_distinctBy [BEq β] [LawfulBEq β] (key : α → β) (k : β) :
    ∀ as : List α, ((distinctBy key as).any fun a => key a == k) = as.any fun a => key a == k
  | [] => rfl
  | a :: as => by
    rw [distinctBy, List.any_cons, List.any_cons, List.any_filter, ← any_distinctBy key k as]
    by_cases ha : key a = k
    · simp [ha]
    · have hother : ∀ b, (key b != key a && key b == k) = (key b == k) := by
        intro b
        by_cases hb : key b = k
        · simp [hb, Ne.symm ha]
        · simp [hb]
      simp only [hother]

namespace Report

theorem insertTitle_distinct (ts : List Text) (t : Text) :
    insertTitle (Title.distinct ts) t = Title.distinct (ts ++ [t]) := by
  have hany := any_distinctBy Text.lowercase t.lowercase ts
  have hlone : distinctBy Text.lowercase [t] = [t] := rfl
  rw [Title.distinct, Title.distinct, insertTitle, hany, distinctBy_append, hlone, List.filter_cons, List.filter_nil]
  simp only [BEq.comm (a := t.lowercase)]
  cases ts.any fun u => u.lowercase == t.lowercase <;> simp

theorem insertTitle_ne_nil (titles : List Text) (t : Text) : insertTitle titles t ≠ [] := by
  unfold insertTitle
  split
  · rename_i h
    obtain ⟨u, hu, -⟩ := List.any_eq_true.1 h
    exact List.ne_nil_of_mem hu
  · simp

/-! ## Lines -/

/-- What a report says of one action: it belongs in one of the four lists. -/
inductive Line where
  | added (title : Text)
  | removed (title : Text)
  | changed (change : Text)
  | failed (complaint : Text)
deriving DecidableEq, Repr

namespace Line

def added? : Line → Option Text
  | .added t => some t
  | _ => none

def removed? : Line → Option Text
  | .removed t => some t
  | _ => none

def changed? : Line → Option Text
  | .changed t => some t
  | _ => none

def failed? : Line → Option Text
  | .failed t => some t
  | _ => none

end Line

/-- The report with one more line in it. -/
def enter (r : Report) : Line → Report
  | .added t => { r with added := insertTitle r.added t }
  | .removed t => { r with removed := insertTitle r.removed t }
  | .changed t => { r with statusChanges := r.statusChanges ++ [t] }
  | .failed t => { r with errors := r.errors ++ [t] }

theorem isEmpty_enter (r : Report) (l : Line) : (r.enter l).isEmpty = false := by
  cases l <;> simp [enter, isEmpty, insertTitle_ne_nil]

/-- The report says what the lines say: titles once, under their first spelling, and all else line by line. -/
structure Accounts (ls : List Line) (r : Report) : Prop where
  added : r.added = Title.distinct (ls.filterMap Line.added?)
  removed : r.removed = Title.distinct (ls.filterMap Line.removed?)
  statusChanges : r.statusChanges = ls.filterMap Line.changed?
  errors : r.errors = ls.filterMap Line.failed?

/-- **One more line is one more thing accounted for.** -/
theorem Accounts.enter {ls : List Line} {r : Report} (h : r.Accounts ls) (l : Line) :
    (r.enter l).Accounts (ls ++ [l]) where
  added := by cases l <;> simp [Report.enter, List.filterMap_cons, Line.added?, h.added, insertTitle_distinct]
  removed := by cases l <;> simp [Report.enter, List.filterMap_cons, Line.removed?, h.removed, insertTitle_distinct]
  statusChanges := by cases l <;> simp [Report.enter, List.filterMap_cons, Line.changed?, h.statusChanges]
  errors := by cases l <;> simp [Report.enter, List.filterMap_cons, Line.failed?, h.errors]

end Report

/-! ## Outcomes -/

/-- What comes of an action. -/
inductive Ending where
  /-- Its word stands for no status. -/
  | rejected
  | refused (e : Error)
  | written (status : Status)
deriving DecidableEq, Repr

/-- The line of an action that came to this end. -/
def Action.line : Action → Ending → Report.Line
  | .add t, .written _ => .added t
  | .remove t, .written _ => .removed t
  | .setStatus t _, .written s => .changed (t ++ " → ".toList ++ s.code)
  | a, .refused e => .failed (a.render ++ ": ".toList ++ e.message)
  | a, .rejected => .failed (a.title ++ " → invalid status (".toList ++ a.word ++ ")".toList)

namespace Plan
variable {κ : Type} [Keeper κ]

/-- Asks an action of a keeper: what comes of it, and the keeper after it. -/
def ask (a : Action) (c : κ) : Ending × κ :=
  match a.status? with
  | none => (.rejected, c)
  | some s =>
    match Keeper.write a.title s c with
    | (.ok (), c) => (.written s, c)
    | (.error e, c) => (.refused e, c)

/-- The actions of a plan, each with what comes of it when they are asked of a keeper in order. -/
def outcomes : Plan → κ → List (Action × Ending)
  | [], _ => []
  | a :: p, c => (a, (ask a c).1) :: outcomes p (ask a c).2

/-- **A step** asks one action and enters its line. -/
theorem step_eq_enter (a : Action) (r : Report) (c : κ) :
    step a r c = (r.enter (a.line (ask a c).1), (ask a c).2) := by
  unfold step ask
  cases hs : a.status? with
  | none => cases a <;> rfl
  | some s =>
    rcases hw : Keeper.write a.title s c with ⟨_ | _, d⟩
    · cases a <;> simp only [hw] <;> rfl
    · cases a <;> simp only [hw] <;> rfl

theorem accounts_runFrom {ls : List Report.Line} {r : Report} (h : r.Accounts ls) (p : Plan) (c : κ) :
    (runFrom r p c).1.Accounts (ls ++ (p.outcomes c).map fun x => x.1.line x.2) := by
  induction p generalizing ls r c with
  | nil => simpa [runFrom, outcomes] using h
  | cons a p ih =>
    have hmore := ih (h.enter (a.line (ask a c).1)) (ask a c).2
    rw [runFrom, step_eq_enter, outcomes, List.map_cons]
    rwa [List.append_assoc, List.singleton_append] at hmore

theorem isEmpty_runFrom : ∀ (p : Plan) {r : Report}, r.isEmpty = false ∨ p ≠ [] →
    ∀ c : κ, (runFrom r p c).1.isEmpty = false
  | [], _, h, _ => h.resolve_right fun hne => hne rfl
  | a :: p, r, _, c => by
    rw [runFrom, step_eq_enter]
    exact isEmpty_runFrom p (.inl (r.isEmpty_enter _)) _

theorem map_fst_outcomes (p : Plan) (c : κ) : (p.outcomes c).map Prod.fst = p := by
  induction p generalizing c with
  | nil => rfl
  | cons a p ih => rw [outcomes, List.map_cons, ih]

/-- **Every action is reported once.**  A run has one outcome for each action of the plan, in order, whatever the keeper
refuses.  The titles it reports as added are those of the additions that were written, the later of two that agree in
small letters left out; so it is with the titles it reports as removed.  It reports each status change that was written,
and an error for each other action, in order.  Its report is empty exactly if the plan is, and then alone is the summary
one of the two texts for runs that tried nothing. -/
theorem run_reports_each (p : Plan) (c : κ) :
    let lines := (p.outcomes c).map fun x => x.1.line x.2
    let r := (p.run c).1
    (p.outcomes c).map Prod.fst = p ∧
      r.added = Title.distinct (lines.filterMap Report.Line.added?) ∧
      r.removed = Title.distinct (lines.filterMap Report.Line.removed?) ∧
      r.statusChanges = lines.filterMap Report.Line.changed? ∧ r.errors = lines.filterMap Report.Line.failed? ∧
      (r.isEmpty = true ↔ p = []) ∧ ((execute p c).1 ∈ Report.fixed ↔ p = []) := by
  intro lines r
  have hnothing : ({} : Report).Accounts [] := ⟨rfl, rfl, rfl, rfl⟩
  have haccounts : r.Accounts lines := accounts_runFrom hnothing p c
  refine ⟨map_fst_outcomes p c, haccounts.added, haccounts.removed, haccounts.statusChanges, haccounts.errors, ?_⟩
  cases p with
  | nil => exact ⟨⟨fun _ => rfl, fun _ => rfl⟩, fun _ => rfl, fun _ => List.mem_cons_self⟩
  | cons a p =>
    have hfull : r.isEmpty = false := isEmpty_runFrom (a :: p) (.inr (List.cons_ne_nil a p)) c
    have hsummary : (execute (a :: p) c).1 = r.render := rfl
    have hnot := Report.render_not_mem_fixed hfull
    rw [hsummary, hfull]
    simp [hnot]

/-- A title in two spellings, a word for no status, and a refused write. -/
example :
    let c : Catalog Shelf := { holdings := {}, faults := .of ["Dune".toList] [] }
    (run [.add "Heat".toList, .setStatus "Heat".toList "later".toList, .add "HEAT".toList, .remove "Dune".toList] c).1 =
      { added := ["Heat".toList],
        errors := ["Heat → invalid status (later)".toList, "remove \"Dune\": Storage error: disk full".toList] } := by
  decide +kernel

end Plan
end WatchList
