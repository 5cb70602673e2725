import WatchList.Proofs.Attempts
import WatchList.Proofs.Repetition
import WatchList.Proofs.Turns
/-!
# Tools and instructions agree

A tool takes a title as it is typed, while an instruction is read: its quotations are found, its clauses told apart and
the titles of each collected.  Both ways end in the same writes.  One title is written once, in its normal form and with
the same status; the titles of a list are written in their order (`Plan.interpret_agrees_with_tools`).
-/
namespace WatchList

/-! ## What the tools write -/

theorem Title.ofList_joined {ts : List Text} (hne : ts ≠ []) (hfree : ∀ t ∈ ts, ∀ x ∈ t, isSeparator x = false)
    (hnamed : ∀ t ∈ ts, normalize t ≠ []) : ofList (Text.joined [','] ts) = ts.map normalize := by
  rw [ofList, Text.pieces_joined (by decide) hne hfree, ofAll_of_named hnamed]

section
variable {κ : Type} [Keeper κ]

theorem Library.put_of_named {raw : Text} (h : Title.normalize raw ≠ []) (s : Status) (c : κ) :
    (Library.put s raw c).2 = (Keeper.write (Title.normalize raw) s c).2 := by
  rw [Library.put_eq_of_named h]
  exact Job.snd_bind_pure (Work.write (Title.normalize raw) s) _ c

/-- An instruction with one action in it is one write. -/
theorem Plan.interpret_of_single {instruction : Text} {a : Action} {s : Status} (h : ofText instruction = [a])
    (hs : a.status? = some s) (c : κ) : (interpret instruction c).2 = (Keeper.write a.title s c).2 := by
  have hne : ofText instruction ≠ [] := by simp [h]
  rw [interpret_of_ne_nil hne, h, run, runFrom, runFrom, step_of_status hs]

end

section
variable {σ : Type} [Holdings σ]

/-- **Titles in turn are written up to the first that is refused.** -/
theorem Work.writeAll_eq (s : Status) : ∀ (ts : List Text) (c : Catalog σ),
    (Work.writeAll s ts c).2.faults = c.faults ∧
      (Work.writeAll s ts c).2.holdings = Holdings.fill c.holdings
        ((ts.takeWhile fun t => (c.faults.write t).isNone).map fun t => ⟨t, s⟩)
  | [], c => ⟨rfl, rfl⟩
  | t :: ts, c => by
    cases h : c.faults.write t with
    | some e =>
      rw [Work.writeAll, Job.bind_of_error (Catalog.write_refused h s)]
      simp [h, Holdings.fill]
    | none =>
      have ih := Work.writeAll_eq s ts
        { c with holdings := Holdings.put t s c.holdings, journal := c.journal ++ [⟨t, s⟩] }
      rw [Work.writeAll, Job.bind_of_ok (Catalog.write_granted h s), List.takeWhile_cons_of_pos (by simp [h])]
      exact ih

/-- Where no title is written behind a refused one, the titles before the first refused one are all that are written. -/
theorem Faults.takeWhile_eq_filter {faults : Faults} : ∀ {ts : List Text},
    (ts.Pairwise fun t u => faults.write u = .none → faults.write t = .none) →
    (ts.takeWhile fun t => (faults.write t).isNone) = ts.filter fun t => (faults.write t).isNone
  | [], _ => rfl
  | t :: ts, h => by
    obtain ⟨hfirst, hts⟩ := List.pairwise_cons.1 h
    by_cases ht : faults.write t = .none
    · rw [List.takeWhile_cons_of_pos (by simp [ht]), List.filter_cons_of_pos (by simp [ht]), takeWhile_eq_filter hts]
    · have hrefused : ∀ u ∈ ts, ¬ (faults.write u).isNone = true := fun u hu hnone =>
        ht (hfirst u hu (Option.isNone_iff_eq_none.1 hnone))
      rw [List.takeWhile_cons_of_neg (by simp [ht]), List.filter_cons_of_neg (by simp [ht]),
        List.filter_eq_nil_iff.2 hrefused]

theorem Catalog.list_congr {c d : Catalog σ} (hf : c.faults = d.faults) (hh : c.holdings = d.holdings) (s : Status) :
    c.list s = d.list s := by rw [list, list, hf, hh]

theorem Action.isNone_complaint? {a : Action} {s : Status} (hs : a.status? = some s) (faults : Faults) :
    (a.complaint? faults).isNone = (faults.write a.title).isNone := by
  unfold Action.complaint?
  cases h : faults.write a.title <;> simp [hs]

/-- Of the titles to add, those are written that are not refused. -/
theorem Plan.writes_add (faults : Faults) (ts : List Text) :
    Plan.writes faults (ts.map .add) = (ts.filter fun t => (faults.write t).isNone).map fun t => ⟨t, .wanted⟩ := by
  have hkept : (fun a : Action => (a.complaint? faults).isNone) ∘ Action.add = fun t => (faults.write t).isNone := by
    funext t
    exact Action.isNone_complaint? (s := .wanted) rfl faults
  rw [writes, carriedOut, List.filter_map, hkept, List.filterMap_map]
  exact congrFun List.filterMap_eq_map _

/-- An instruction to add titles writes those that are not refused. -/
theorem Plan.interpret_adds {instruction : Text} {ts : List Text} (h : ofText instruction = ts.map .add) (hne : ts ≠ [])
    (c : Catalog σ) :
    (interpret instruction c).2.faults = c.faults ∧
      (interpret instruction c).2.holdings = Holdings.fill c.holdings
        ((ts.filter fun t => (c.faults.write t).isNone).map fun t => ⟨t, .wanted⟩) := by
  have hacts : ofText instruction ≠ [] := by
    rw [h]
    simpa using hne
  rw [interpret_of_ne_nil hacts, h, ← writes_add]
  exact ⟨faults_runFrom _ _ c, holdings_runFrom _ _ c⟩

end

/-! ## Agreement -/

namespace Plan

/-- **Tools and instructions agree.**  Take any catalog and a title without quotes that names something.  To remove it,
to mark it as seen, to set its status, or, if it is not written as a list, to add it, leaves the catalog as the
instruction does that cites the title.  And a list of such titles without separators, no two of which agree in small
letters, is added with the same listings as by the instruction that cites them all, if no title is refused that stands
before one that is not: an open catalog refuses none, and a closed one all of them. -/
theorem interpret_agrees_with_tools {σ : Type} [Holdings σ] (c : Catalog σ) :
    (∀ t : Text, (∀ x ∈ t, isQuote x = false) → Title.normalize t ≠ [] →
      (Library.remove t c).2 = (interpret ("remove ".toList ++ Title.cited t) c).2 ∧
      (Library.markSeen t c).2 = (interpret ("mark ".toList ++ Title.cited t ++ " as seen".toList) c).2 ∧
      (∀ s : Status, (Library.setStatus t s.code c).2 =
        (interpret ("mark ".toList ++ Title.cited t ++ (" as ".toList ++ s.code)) c).2) ∧
      (t.any Title.isSeparator = false → (Library.add t c).2 = (interpret ("add ".toList ++ Title.cited t) c).2)) ∧
    ∀ ts : List Text, ts ≠ [] →
      (∀ t ∈ ts, (∀ x ∈ t, isQuote x = false ∧ Title.isSeparator x = false) ∧ Title.normalize t ≠ []) →
      (ts.map fun t => (Title.normalize t).lowercase).Nodup →
      (ts.Pairwise fun t u => c.faults.write (Title.normalize u) = none → c.faults.write (Title.normalize t) = none) →
      ∀ s, (Bulk.add (Text.joined [','] ts) c).2.list s =
        (interpret ("add ".toList ++ Text.joined ", ".toList (ts.map Title.cited)) c).2.list s := by
  constructor
  · intro t hfree hnamed
    have ht : Title.Citable t := ⟨hfree, hnamed⟩
    have hstatus : ∀ s : Status, (Library.setStatus t s.code c).2 =
        (interpret ("mark ".toList ++ Title.cited t ++ (" as ".toList ++ s.code)) c).2 := by
      intro s
      have hwrite : (Library.setStatus t s.code c).2 = (Library.put s t c).2 := by
        rw [Library.setStatus, Status.ofWord_code]
        exact Job.snd_bind_pure (Library.put s t) _ c
      rw [hwrite, Library.put_of_named hnamed]
      exact (interpret_of_single (ofText_statusFrame Clause.markAs ht s) (Status.ofWord?_code s) c).symm
    refine ⟨?_, ?_, hstatus, ?_⟩
    · rw [Library.remove, Library.put_of_named hnamed]
      exact (interpret_of_single (ofText_verbLead_one Clause.removeLead ht) rfl c).symm
    · rw [Library.markSeen, Library.put_of_named hnamed]
      exact (interpret_of_single (ofText_statusFrame Clause.markAs ht .seen) (Status.ofWord?_code .seen) c).symm
    · intro hone
      have hwrite : (Library.add t c).2 = (Library.put .wanted t c).2 := by
        rw [Library.add, if_neg (by simpa using hone)]
        exact Job.snd_bind_pure (Library.put .wanted t) Added.one c
      rw [hwrite, Library.put_of_named hnamed]
      exact (interpret_of_single (ofText_verbLead_one Clause.addLead ht) rfl c).symm
  · intro ts hne hts hdistinct hrefused s
    have hfree : ∀ t ∈ ts, ∀ x ∈ t, Title.isSeparator x = false := fun t ht x hx => ((hts t ht).1 x hx).2
    have hnamed : ∀ t ∈ ts, Title.normalize t ≠ [] := fun t ht => (hts t ht).2
    have hcitable : ∀ t ∈ ts, Title.Citable t := fun t ht => ⟨fun x hx => ((hts t ht).1 x hx).1, hnamed t ht⟩
    -- both ways name the same titles, in the same order
    have hbulk : (Bulk.add (Text.joined [','] ts) c).2 = (Work.writeAll .wanted (ts.map Title.normalize) c).2 := by
      rw [Bulk.add, Bulk.put, Title.ofList_joined hne hfree hnamed]
      exact Job.snd_bind_pure (Work.writeAll .wanted (ts.map Title.normalize)) _ c
    have hread : ofText ("add ".toList ++ Text.joined ", ".toList (ts.map Title.cited)) =
        (ts.map Title.normalize).map .add := by
      rw [List.map_map]
      exact ofText_verbLead Clause.addLead hne hcitable hdistinct
    obtain ⟨hfaults, hwritten⟩ := Work.writeAll_eq .wanted (ts.map Title.normalize) c
    obtain ⟨hfaults', hwritten'⟩ := interpret_adds hread (by simpa using hne) c
    rw [hbulk]
    refine Catalog.list_congr (hfaults.trans hfaults'.symm) ?_ s
    rw [hwritten, hwritten', Faults.takeWhile_eq_filter (List.pairwise_map.2 hrefused)]

/-- A title made of an instruction, and a list of verbs, conjunctions and statuses. -/
theorem interpret_agrees_with_tools_vocabulary :
    let c : Catalog Shelf := { holdings := ⟨[⟨"then".toList, .disliked⟩]⟩ }
    let t := "Go; remove Heat from my list, and mark it".toList
    let ts := ["Put Seen".toList, " THEN ".toList, "to watch".toList]
    (∀ x ∈ t, isQuote x = false) ∧ Title.normalize t ≠ [] ∧
      (Library.markSeen t c).2 =
        (interpret "mark \"Go; remove Heat from my list, and mark it\" as seen".toList c).2 ∧
      (∀ t ∈ ts, (∀ x ∈ t, isQuote x = false ∧ Title.isSeparator x = false) ∧ Title.normalize t ≠ []) ∧
      (ts.map fun t => (Title.normalize t).lowercase).Nodup ∧
      (interpret "add \"Put Seen\", \" THEN \", \"to watch\"".toList c).2.list .wanted =
        .ok ["to watch".toList, "THEN".toList, "Put Seen".toList] := by
  intro c t ts
  have hfree : ∀ x ∈ t, isQuote x = false := Quote.free_of_any (by decide)
  have hnamed : Title.normalize t ≠ [] := by decide +kernel
  have hts : ∀ t ∈ ts, (∀ x ∈ t, isQuote x = false ∧ Title.isSeparator x = false) ∧ Title.normalize t ≠ [] := by
    have hall : ∀ t ∈ ts, (t.any fun x => isQuote x || Title.isSeparator x) = false ∧ Title.normalize t ≠ [] := by
      decide +kernel
    refine fun t ht => ⟨fun x hx => ?_, (hall t ht).2⟩
    have hx' := List.any_eq_false.1 (hall t ht).1 x hx
    simpa using hx'
  have hdistinct : (ts.map fun t => (Title.normalize t).lowercase).Nodup := by decide +kernel
  have hopen : ts.Pairwise fun t u =>
      c.faults.write (Title.normalize u) = none → c.faults.write (Title.normalize t) = none :=
    List.pairwise_of_forall fun _ _ _ => rfl
  obtain ⟨hone, hmany⟩ := interpret_agrees_with_tools c
  obtain ⟨-, hmark, -⟩ := hone t hfree hnamed
  have hadd := hmany ts (List.cons_ne_nil _ _) hts hdistinct hopen .wanted
  have hlisted : (Bulk.add (Text.joined [','] ts) c).2.list .wanted =
      .ok ["to watch".toList, "THEN".toList, "Put Seen".toList] := by decide +kernel
  exact ⟨hfree, hnamed, hmark, hts, hdistinct, hadd.symm.trans hlisted⟩

end Plan
end WatchList
