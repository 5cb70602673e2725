import WatchList.Execution
/-!
# Isolation: what a refused action leaves behind

An action of a plan comes to nothing for one of two reasons: its word stands for no status, or the catalog refuses its
title.  Either way it leaves one complaint in the report and nothing else (`step_of_complaint`), so a run is the run of
the other actions on a catalog that refuses nothing, with the complaints beside it (`run_isolates`).
-/
namespace WatchList

/-- What is reported when an action comes to nothing on a catalog with these faults; none for an action that is carried
out. -/
def Action.complaint? (faults : Faults) (a : Action) : Option Text :=
  match a.status?, faults.write a.title with
  | none, _ => some (a.title ++ " → invalid status (".toList ++ a.word ++ ")".toList)
  | some _, some e => some (a.render ++ ": ".toList ++ e.message)
  | some _, none => none

/-- The write that an action asks for; none if its word stands for no status. -/
def Action.request? (a : Action) : Option Entry := a.status?.map fun s => ⟨a.title, s⟩

def Plan.carriedOut (faults : Faults) (p : Plan) : Plan := p.filter fun a => (a.complaint? faults).isNone

theorem Plan.carriedOut_cons_of_complaint {faults : Faults} {a : Action} {msg : Text} (p : Plan)
    (h : a.complaint? faults = some msg) : Plan.carriedOut faults (a :: p) = p.carriedOut faults :=
  List.filter_cons_of_neg (by rw [h]; exact Bool.false_ne_true)

theorem Plan.carriedOut_cons_of_no_complaint {faults : Faults} {a : Action} (p : Plan)
    (h : a.complaint? faults = none) : Plan.carriedOut faults (a :: p) = a :: p.carriedOut faults :=
  List.filter_cons_of_pos (by rw [h]; rfl)

namespace Report

def cleared (r : Report) : Report := { r with errors := [] }

theorem cleared_succeed (a : Action) (s : Status) (r : Report) : (r.succeed a s).cleared = r.cleared.succeed a s := by
  cases a <;> rfl

theorem errors_succeed (a : Action) (s : Status) (r : Report) : (r.succeed a s).errors = r.errors := by
  cases a <;> rfl

end Report

namespace Plan
variable {σ : Type} [Holdings σ]

/-! ## One step -/

/-- **A step that comes to nothing** adds its complaint to the errors, and its request to the journal. -/
theorem step_of_complaint {a : Action} {c : Catalog σ} {msg : Text} (h : a.complaint? c.faults = some msg)
    (r : Report) :
    step a r c = ({ r with errors := r.errors ++ [msg] }, { c with journal := c.journal ++ a.request?.toList }) := by
  unfold Action.complaint? at h
  unfold step Action.request?
  cases hs : a.status? with
  | none =>
    rw [hs] at h
    obtain rfl := Option.some.inj h
    simp [Report.reject]
  | some s =>
    cases hw : c.faults.write a.title with
    | none => rw [hs, hw] at h; cases h
    | some e =>
      rw [hs, hw] at h
      obtain rfl := Option.some.inj h
      simp [Catalog.write, hw, Report.fail]

/-- **A step without a complaint** writes the title with the action's status. -/
theorem step_of_no_complaint {a : Action} {c : Catalog σ} (h : a.complaint? c.faults = none) :
    ∃ s, a.status? = some s ∧ ∀ r, step a r c = (r.succeed a s,
      { c with holdings := Holdings.put a.title s c.holdings, journal := c.journal ++ [⟨a.title, s⟩] }) := by
  unfold Action.complaint? at h
  cases hs : a.status? with
  | none => rw [hs] at h; cases h
  | some s =>
    cases hw : c.faults.write a.title with
    | some e => rw [hs, hw] at h; cases h
    | none =>
      refine ⟨s, rfl, fun r => ?_⟩
      simp [step, hs, Catalog.write, hw]

theorem faults_step (a : Action) (r : Report) (c : Catalog σ) : (step a r c).2.faults = c.faults := by
  cases h : a.complaint? c.faults with
  | some msg => rw [step_of_complaint h]
  | none =>
    obtain ⟨s, -, hstep⟩ := step_of_no_complaint h
    rw [hstep]

theorem journal_step (a : Action) (r : Report) (c : Catalog σ) :
    (step a r c).2.journal = c.journal ++ a.request?.toList := by
  cases h : a.complaint? c.faults with
  | some msg => rw [step_of_complaint h]
  | none =>
    obtain ⟨s, hs, hstep⟩ := step_of_no_complaint h
    rw [hstep, Action.request?, hs]
    rfl

theorem errors_step (a : Action) (r : Report) (c : Catalog σ) :
    (step a r c).1.errors = r.errors ++ (a.complaint? c.faults).toList := by
  cases h : a.complaint? c.faults with
  | some msg => rw [step_of_complaint h]; rfl
  | none =>
    obtain ⟨s, -, hstep⟩ := step_of_no_complaint h
    rw [hstep, Report.errors_succeed]
    simp

/-! ## A whole run -/

theorem journal_runFrom (p : Plan) (r : Report) (c : Catalog σ) :
    (runFrom r p c).2.journal = c.journal ++ p.filterMap Action.request? := by
  induction p generalizing r c with
  | nil => simp [runFrom]
  | cons a p ih =>
    rw [runFrom, ih, journal_step, List.append_assoc]
    cases h : a.request? <;> simp [h]

theorem errors_runFrom (p : Plan) (r : Report) (c : Catalog σ) :
    (runFrom r p c).1.errors = r.errors ++ p.filterMap (Action.complaint? c.faults) := by
  induction p generalizing r c with
  | nil => simp [runFrom]
  | cons a p ih =>
    rw [runFrom, ih, faults_step, errors_step, List.append_assoc]
    cases h : a.complaint? c.faults <;> simp [h]

/-- **Two runs side by side**: a catalog with faults given all actions, and one without faults given those that the
first carries out.  Equal holdings and equal reports, errors aside, stay equal. -/
theorem runFrom_carriedOut (p : Plan) (r : Report) (c c' : Catalog σ) (hh : c'.holdings = c.holdings)
    (hf : c'.faults = Faults.none) :
    (runFrom r.cleared (p.carriedOut c.faults) c').1 = (runFrom r p c).1.cleared ∧
      (runFrom r.cleared (p.carriedOut c.faults) c').2.holdings = (runFrom r p c).2.holdings := by
  induction p generalizing r c c' with
  | nil => exact ⟨rfl, hh⟩
  | cons a p ih =>
    cases h : a.complaint? c.faults with
    | some msg =>
      rw [carriedOut_cons_of_complaint p h, runFrom, step_of_complaint h]
      exact ih { r with errors := r.errors ++ [msg] } { c with journal := c.journal ++ a.request?.toList } c' hh hf
    | none =>
      obtain ⟨s, hs, hstep⟩ := step_of_no_complaint h
      -- without faults the same action has no complaint either, and its status is the same
      have h' : a.complaint? c'.faults = none := by
        rw [Action.complaint?, hs, hf]
        rfl
      obtain ⟨s', hs', hstep'⟩ := step_of_no_complaint h'
      obtain rfl : s = s' := Option.some.inj (hs.symm.trans hs')
      rw [carriedOut_cons_of_no_complaint p h, runFrom, runFrom, hstep, hstep', hh, ← Report.cleared_succeed]
      exact ih (r.succeed a s)
        { c with holdings := Holdings.put a.title s c.holdings, journal := c.journal ++ [⟨a.title, s⟩] }
        { c' with holdings := Holdings.put a.title s c.holdings, journal := c'.journal ++ [⟨a.title, s⟩] } rfl hf

/-- **Partial failures are isolated.**  A run asks for one write for each action whose word stands for a status, in the
order of the plan.  Its holdings, and the titles and changes it reports, are those of the actions it carries out, run
on the same holdings with nothing refused; its errors are the complaints of the others, one each, in order. -/
theorem run_isolates (p : Plan) (c : Catalog σ) :
    let kept := (p.carriedOut c.faults).run { c with faults := Faults.none }
    (p.run c).2.journal = c.journal ++ p.filterMap Action.request? ∧
      (p.run c).2.holdings = kept.2.holdings ∧ (p.run c).1.added = kept.1.added ∧
      (p.run c).1.removed = kept.1.removed ∧ (p.run c).1.statusChanges = kept.1.statusChanges ∧
      (p.run c).1.errors = p.filterMap (Action.complaint? c.faults) := by
  intro kept
  obtain ⟨hr, hh⟩ := runFrom_carriedOut p {} c { c with faults := Faults.none } rfl rfl
  have hrun : kept.1 = (p.run c).1.cleared := hr
  rw [hrun]
  exact ⟨journal_runFrom p {} c, hh.symm, rfl, rfl, rfl, errors_runFrom p {} c⟩

end Plan
end WatchList
