import WatchList.Proofs.CleanTitles
import WatchList.Proofs.Custody
import WatchList.Proofs.Isolation
import WatchList.Proofs.Reporting
import WatchList.Proofs.RoundTrip
/-!
# What an instruction attempts

Every action that is read from an instruction can be carried out: its title is clean and its word is a code
(`Plan.canonical_of_mem_ofText`).  So an instruction asks for one write an action, whatever is refused on the way, and
the summary says that nothing was tried only if nothing was (`Plan.interpret_attempts_each`).

The titles of a plan have no quotes in them, while a refused action is shown with its title in quotes.  So no title can
make a summary without a failure look like one with a failure (`Plan.interpret_shows_refusal`).
-/
namespace WatchList

/-! ## Canonical actions -/

theorem ClauseKind.Writes.coded {k : ClauseKind} {write : Text → Action} (h : k.Writes write) (t : Text) :
    ∃ s : Status, (write t).word = s.code := by
  cases h with
  | statusChange s => exact ⟨s, rfl⟩
  | add => exact ⟨.wanted, rfl⟩
  | remove => exact ⟨.disliked, rfl⟩
  | quotedTitles => exact ⟨.wanted, rfl⟩

/-- **Every action of an instruction is canonical.** -/
theorem Plan.canonical_of_mem_ofText {instruction : Text} {a : Action} (h : a ∈ Plan.ofText instruction) :
    a.Canonical := by
  have hclean := Plan.clean_of_mem_ofText h
  obtain ⟨clause, -, ha⟩ := List.mem_flatMap.1 h
  obtain ⟨write, t, hwrites, -, rfl⟩ := Clause.exists_writes ha
  exact ⟨hclean.named, hclean.normal, hwrites.coded t⟩

theorem Action.Canonical.exists_status {a : Action} (h : a.Canonical) : ∃ s, a.status? = some s := by
  cases a with
  | add t => exact ⟨.wanted, rfl⟩
  | remove t => exact ⟨.disliked, rfl⟩
  | setStatus t w =>
    obtain ⟨s, rfl⟩ : ∃ s : Status, w = s.code := h.coded
    exact ⟨s, Status.ofWord?_code s⟩

/-! ## Blank instructions -/

theorem Plan.ofText_of_blank {instruction : Text} (h : ∀ c ∈ instruction, isBlank c = true) :
    Plan.ofText instruction = [] := by
  have hsplit : Clause.split instruction = [] := by
    refine List.filter_eq_nil_iff.2 fun clause hclause => ?_
    obtain ⟨piece, hpiece, rfl⟩ := List.mem_map.1 hclause
    have hblank : piece.trim = [] :=
      (Text.trim_eq_nil_iff piece).2 fun c hc => h c ((Pattern.infix_of_mem_cut hpiece).subset hc)
    simp [hblank]
  rw [ofText, hsplit]
  rfl

/-! ## Attempts -/

/-- What is reported of a write that was refused. -/
def refusal? : Action × Except Error Unit → Option Text
  | (_, .ok ()) => none
  | (a, .error e) => some (a.render ++ ": ".toList ++ e.message)

namespace Report

/-- The report with one more attempt in it. -/
def tell (s : Status) : Action × Except Error Unit → Report → Report
  | (a, .ok ()), r => r.succeed a s
  | (a, .error e), r => r.fail a e

theorem errors_tell (s : Status) (x : Action × Except Error Unit) (r : Report) :
    (r.tell s x).errors = r.errors ++ (refusal? x).toList := by
  obtain ⟨a, _ | _⟩ := x
  · rfl
  · exact (errors_succeed a s r).trans (List.append_nil _).symm

/-- No title that was written is reported with a quote in it. -/
def Unquoted (r : Report) : Prop := ∀ t ∈ r.added ++ r.removed ++ r.statusChanges, ∀ c ∈ t, isQuote c = false

theorem mem_insertTitle {titles : List Text} {t u : Text} (h : u ∈ insertTitle titles t) : u ∈ titles ∨ u = t := by
  unfold insertTitle at h
  split at h
  · exact .inl h
  · simpa using h

theorem Unquoted.tell {r : Report} (hr : r.Unquoted) (s : Status) {x : Action × Except Error Unit}
    (hx : ∀ c ∈ x.1.title, isQuote c = false) : (r.tell s x).Unquoted := by
  obtain ⟨a, _ | _⟩ := x
  · exact hr
  · simp only [Unquoted, List.forall_mem_append] at hr ⊢
    obtain ⟨⟨hadded, hremoved⟩, hchanges⟩ := hr
    have hinsert : ∀ {titles : List Text}, (∀ t ∈ titles, ∀ c ∈ t, isQuote c = false) →
        ∀ t ∈ insertTitle titles a.title, ∀ c ∈ t, isQuote c = false := by
      intro titles htitles t ht
      rcases mem_insertTitle ht with ht | rfl
      · exact htitles t ht
      · exact hx
    cases a with
    | add t => exact ⟨⟨hinsert hadded, hremoved⟩, hchanges⟩
    | remove t => exact ⟨⟨hadded, hinsert hremoved⟩, hchanges⟩
    | setStatus t w =>
      refine ⟨⟨hadded, hremoved⟩, List.forall_mem_append.2 ⟨hchanges, ?_⟩⟩
      have hcode : ∀ c ∈ s.code, isQuote c = false := Quote.free_of_any (by cases s <;> decide)
      simp only [List.forall_mem_singleton, List.forall_mem_append]
      exact ⟨⟨hx, Quote.free_of_any (by decide)⟩, hcode⟩

end Report

namespace Plan

section
variable {κ : Type} [Keeper κ]

/-- The writes that a run of the plan asks of a keeper, in order: the action of each and what the keeper answers.  An
action whose word stands for no status asks for none. -/
def attempts : Plan → κ → List (Action × Except Error Unit)
  | [], _ => []
  | a :: p, c =>
    match a.status? with
    | none => attempts p c
    | some s => (a, (Keeper.write a.title s c).1) :: attempts p (Keeper.write a.title s c).2

theorem attempts_cons {a : Action} {s : Status} (h : a.status? = some s) (p : Plan) (c : κ) :
    attempts (a :: p) c =
      (a, (Keeper.write a.title s c).1) :: attempts p (Keeper.write a.title s c).2 := by
  rw [attempts, h]

/-- **One step is one attempt**, and the report tells its outcome. -/
theorem step_of_status {a : Action} {s : Status} (h : a.status? = some s) (r : Report) (c : κ) :
    step a r c = (r.tell s (a, (Keeper.write a.title s c).1), (Keeper.write a.title s c).2) := by
  unfold step
  rcases hw : Keeper.write a.title s c with ⟨_ | _, d⟩ <;> simp [h, hw, Report.tell]

theorem map_fst_attempts : ∀ {p : Plan}, (∀ a ∈ p, a.Canonical) → ∀ c : κ, (p.attempts c).map Prod.fst = p
  | [], _, _ => rfl
  | a :: p, hp, c => by
    obtain ⟨ha, hp⟩ := List.forall_mem_cons.1 hp
    obtain ⟨s, hs⟩ := ha.exists_status
    rw [attempts_cons hs, List.map_cons, map_fst_attempts hp]

theorem errors_runFrom_attempts : ∀ {p : Plan}, (∀ a ∈ p, a.Canonical) → ∀ (r : Report) (c : κ),
    (runFrom r p c).1.errors = r.errors ++ (p.attempts c).filterMap refusal?
  | [], _, r, c => by simp [runFrom, attempts]
  | a :: p, hp, r, c => by
    obtain ⟨ha, hp⟩ := List.forall_mem_cons.1 hp
    obtain ⟨s, hs⟩ := ha.exists_status
    rw [runFrom, step_of_status hs, errors_runFrom_attempts hp, Report.errors_tell, attempts_cons hs, List.append_assoc]
    cases hx : refusal? (a, (Keeper.write a.title s c).1) <;> simp [hx]

theorem unquoted_runFrom : ∀ {p : Plan}, (∀ a ∈ p, a.Canonical) → ∀ {r : Report}, r.Unquoted →
    ∀ c : κ, (runFrom r p c).1.Unquoted
  | [], _, _, hr, _ => hr
  | a :: p, hp, r, hr, c => by
    obtain ⟨ha, hp⟩ := List.forall_mem_cons.1 hp
    obtain ⟨s, hs⟩ := ha.exists_status
    rw [runFrom, step_of_status hs]
    exact unquoted_runFrom hp (hr.tell s (Title.free_of_normal ha.normal)) _

/-! ## Summaries of instructions -/

theorem interpret_of_nil {instruction : Text} [Decidable (∀ x ∈ instruction, isBlank x = true)]
    (h : ofText instruction = []) (c : κ) :
    interpret instruction c =
      (if ∀ x ∈ instruction, isBlank x = true then Report.nothingToDo else Report.nothingRecognized, c) := by
  unfold interpret
  by_cases hblank : instruction.trim = []
  · rw [if_pos ((Text.trim_eq_nil_iff _).1 hblank), if_pos (by simpa using hblank)]
  · rw [if_neg fun hall => hblank ((Text.trim_eq_nil_iff _).2 hall), if_neg (by simpa using hblank)]
    simp [h]

theorem interpret_of_ne_nil {instruction : Text} (h : ofText instruction ≠ []) (c : κ) :
    interpret instruction c = (((ofText instruction).run c).1.render, ((ofText instruction).run c).2) := by
  have hblank : instruction.trim ≠ [] := fun hnil => h (ofText_of_blank ((Text.trim_eq_nil_iff _).1 hnil))
  simp [interpret, execute, hblank, h]

theorem render_run_not_mem_fixed {instruction : Text} (h : ofText instruction ≠ []) (c : κ) :
    ((ofText instruction).run c).1.render ∉ Report.fixed :=
  Report.render_not_mem_fixed (isEmpty_runFrom _ (.inr h) c)

end

/-! ## Requests -/

section
variable {σ : Type} [Holdings σ]

theorem asked_step (a : Action) (r : Report) (c : Fickle σ) :
    (step a r c).2.asked = a.request?.toList.map Request.write ++ c.asked := by
  have hwrite : ∀ s, (Keeper.write a.title s c).2.asked = .write ⟨a.title, s⟩ :: c.asked := by
    intro s
    change (Fickle.write a.title s c).2.asked = _
    unfold Fickle.write
    dsimp only
    split <;> rfl
  cases hs : a.status? with
  | none => simp [step, hs, Action.request?]
  | some s =>
    rw [step_of_status hs, hwrite, Action.request?, hs]
    rfl

theorem asked_runFrom : ∀ (p : Plan) (r : Report) (c : Fickle σ),
    (runFrom r p c).2.asked = ((p.filterMap Action.request?).map Request.write).reverse ++ c.asked
  | [], _, _ => rfl
  | a :: p, r, c => by
    rw [runFrom, asked_runFrom p, asked_step]
    cases h : a.request? <;> simp [h]

/-- Canonical actions ask for one write each. -/
theorem map_request : ∀ {p : Plan}, (∀ a ∈ p, a.Canonical) →
    p.map Action.request? = (p.filterMap Action.request?).map some
  | [], _ => rfl
  | a :: p, hp => by
    obtain ⟨ha, hp⟩ := List.forall_mem_cons.1 hp
    obtain ⟨s, hs⟩ := ha.exists_status
    have hrequest : a.request? = some ⟨a.title, s⟩ := by rw [Action.request?, hs, Option.map_some]
    simp [hrequest, map_request hp]

/-- **An instruction attempts one write an action.**  The actions of an instruction are canonical.  Whatever writes are
refused, the requests made are one write for each action, in order, and the errors reported are the refusals of such
writes, so never that a word stands for no status.  The summary is *No actions to perform.* exactly if the instruction is
blank, and *No action recognized.* exactly if it is not blank and has no action; so it is one of the two exactly if no
write was attempted. -/
theorem interpret_attempts_each (instruction : Text) (c : Fickle σ) :
    let p := ofText instruction
    let blank := ∀ x ∈ instruction, isBlank x = true
    let summary := (interpret instruction c).1
    let d := (interpret instruction c).2
    (∀ a ∈ p, a.title ≠ [] ∧ Title.normalize a.title = a.title ∧ ∃ s : Status, a.word = s.code) ∧
      (∃ ws : List Entry, p.map Action.request? = ws.map some ∧
        d.asked = (ws.map Request.write).reverse ++ c.asked) ∧
      ((p.attempts c).map Prod.fst = p ∧ (p.run c).1.errors = (p.attempts c).filterMap refusal? ∧
        (p ≠ [] → summary = (p.run c).1.render)) ∧
      (summary = Report.nothingToDo ↔ blank) ∧ (summary = Report.nothingRecognized ↔ ¬ blank ∧ p = []) ∧
      (summary = Report.nothingToDo ∨ summary = Report.nothingRecognized ↔ d.asked = c.asked) := by
  intro p blank summary d
  have hp : ∀ a ∈ p, a.Canonical := fun a => canonical_of_mem_ofText
  have herrors : (p.run c).1.errors = (p.attempts c).filterMap refusal? := errors_runFrom_attempts hp {} c
  have hcanonical : ∀ a ∈ p, a.title ≠ [] ∧ Title.normalize a.title = a.title ∧ ∃ s : Status, a.word = s.code :=
    fun a ha => ⟨(hp a ha).named, (hp a ha).normal, (hp a ha).coded⟩
  by_cases hnil : p = []
  · have hread : (summary, d) = (if blank then Report.nothingToDo else Report.nothingRecognized, c) :=
      interpret_of_nil hnil c
    obtain ⟨hsummary, hd⟩ := Prod.mk.inj hread
    have hdiffer : Report.nothingRecognized ≠ Report.nothingToDo := by decide
    refine ⟨hcanonical, ⟨[], by rw [hnil]; rfl, by rw [hd]; rfl⟩, ⟨map_fst_attempts hp c, herrors,
      fun hne => absurd hnil hne⟩, ?_⟩
    rw [hsummary, hd]
    by_cases hblank : blank
    · simp [hblank, hdiffer.symm]
    · simp [hblank, hdiffer, hnil]
  · have hread : (summary, d) = ((p.run c).1.render, (p.run c).2) := interpret_of_ne_nil hnil c
    obtain ⟨hsummary, hd⟩ := Prod.mk.inj hread
    have hblank : ¬ blank := fun h => hnil (ofText_of_blank h)
    have hfixed : summary ≠ Report.nothingToDo ∧ summary ≠ Report.nothingRecognized := by
      have hmem := render_run_not_mem_fixed hnil c
      rw [hsummary]
      simpa [Report.fixed] using hmem
    have hasked : d.asked = ((p.filterMap Action.request?).map Request.write).reverse ++ c.asked := by
      rw [hd]
      exact asked_runFrom p {} c
    have hmore : d.asked ≠ c.asked := by
      have hsome : p.filterMap Action.request? ≠ [] := by
        intro h
        have hmap := map_request hp
        rw [h] at hmap
        exact hnil (List.map_eq_nil_iff.1 hmap)
      rw [hasked]
      simpa using hsome
    refine ⟨hcanonical, ⟨_, map_request hp, hasked⟩, ⟨map_fst_attempts hp c, herrors, fun _ => hsummary⟩, ?_⟩
    simp [hblank, hfixed, hmore, hnil]

end

/-! ## Refusals -/

theorem quote_mem_render (a : Action) : '"' ∈ a.render := by
  cases a with
  | add t => exact List.mem_append_right _ (show '"' ∈ "\"".toList by decide)
  | remove t => exact List.mem_append_right _ (show '"' ∈ "\"".toList by decide)
  | setStatus t w =>
    apply List.mem_append_left
    exact List.mem_append_right _ (show '"' ∈ "\" to ".toList by decide)

/-- **A refusal always shows.**  Take any two instructions, each carried out on a keeper of its own.  If a write of the
first is refused and no write of the second is, the two summaries are different texts. -/
theorem interpret_shows_refusal {κ κ' : Type} [Keeper κ] [Keeper κ'] (instruction instruction' : Text) (c : κ) (c' : κ')
    (hrefused : ∃ a e, (a, .error e) ∈ (ofText instruction).attempts c)
    (hwritten : ∀ x ∈ (ofText instruction').attempts c', x.2 = .ok ()) :
    (interpret instruction c).1 ≠ (interpret instruction' c').1 := by
  have hp : ∀ {i : Text}, ∀ a ∈ ofText i, a.Canonical := fun a => canonical_of_mem_ofText
  -- the refused action stands in the first summary, with the quotes around its title
  have hquote : '"' ∈ (interpret instruction c).1 := by
    obtain ⟨a, e, hmem⟩ := hrefused
    have hne : ofText instruction ≠ [] := by
      intro hnil
      rw [hnil] at hmem
      cases hmem
    have herror : a.render ++ ": ".toList ++ e.message ∈ ((ofText instruction).run c).1.errors := by
      rw [run, errors_runFrom_attempts hp]
      exact List.mem_append_right _ (List.mem_filterMap.2 ⟨_, hmem, rfl⟩)
    rw [interpret_of_ne_nil hne]
    refine (Report.infix_render herror).subset ?_
    simp [quote_mem_render]
  have hfree : ∀ x ∈ (interpret instruction' c').1, isQuote x = false := by
    by_cases hnil : ofText instruction' = []
    · rw [interpret_of_nil hnil]
      refine Quote.free_of_any ?_
      dsimp only
      split <;> decide
    · rw [interpret_of_ne_nil hnil]
      refine Report.free_render fun t ht => ?_
      have herrors : ((ofText instruction').run c').1.errors = [] := by
        rw [run, errors_runFrom_attempts hp, List.filterMap_eq_nil_iff.2]
        · rfl
        · rintro ⟨a, answer⟩ hx
          rw [show answer = .ok () from hwritten _ hx]
          rfl
      have hunquoted : ((ofText instruction').run c').1.Unquoted :=
        unquoted_runFrom hp (r := {}) (fun _ h => nomatch h) c'
      rw [herrors, List.append_nil] at ht
      exact hunquoted t ht
  intro heq
  rw [heq] at hquote
  exact absurd (hfree _ hquote) (by decide)

/-- A title that reads like the summary of a failure, beside that failure. -/
theorem interpret_shows_refusal_lookalike :
    let c : Catalog Shelf := { holdings := {}, faults := .of ["Heat".toList] [] }
    let c' : Catalog Shelf := { holdings := {} }
    let i := "add Heat".toList
    let i' := "add «Alien. Errors: add 'Heat': Storage error: disk full»".toList
    (interpret i c).1 = "Errors: add \"Heat\": Storage error: disk full.".toList ∧
      (interpret i' c').1 = "Added: Alien. Errors: add 'Heat': Storage error: disk full.".toList ∧
      (∃ a e, (a, .error e) ∈ (ofText i).attempts c) ∧ (∀ x ∈ (ofText i').attempts c', x.2 = .ok ()) ∧
      (interpret i c).1 ≠ (interpret i' c').1 := by
  intro c c' i i'
  have hread : ofText i = [.add "Heat".toList] ∧
      ofText i' = [.add "Alien. Errors: add 'Heat': Storage error: disk full".toList] := by decide +kernel
  have hrefused : ∃ a e, (a, .error e) ∈ (ofText i).attempts c := by
    rw [hread.1]
    exact ⟨.add "Heat".toList, .storage "disk full".toList, List.mem_singleton.2 rfl⟩
  have hwritten : ∀ x ∈ (ofText i').attempts c', x.2 = .ok () := by
    rw [hread.2]
    exact List.forall_mem_singleton.2 rfl
  exact ⟨by decide +kernel, by decide +kernel, hrefused, hwritten,
    interpret_shows_refusal i i' c c' hrefused hwritten⟩

end Plan
end WatchList
