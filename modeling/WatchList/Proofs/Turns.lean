import WatchList.Proofs.CleanTitles
import WatchList.Proofs.Custody
/-!
# Titles in turn

A list of titles is written title by title, and the first refusal ends it (`Work.writeAll_inTurn`): what stands before the
refused title is written, and what stands behind it is not asked for.

The titles of a list are clean and hold no separators, so a tool for one title neither refuses one of them itself nor
takes it for a list.  Hence each tool for a list is the tool for one title, used on the titles of the list in turn
(`Bulk.in_turn`).
-/
namespace WatchList

/-! ## Writes in turn -/

namespace Fickle
variable {σ : Type} [Holdings σ]

/-- None of the writes is refused when they are asked for in turn. -/
def Grants (c : Fickle σ) : List Entry → Prop
  | [] => True
  | w :: ws => c.refuses (.write w :: c.asked) = none ∧ Grants (c.granting [w]) ws

@[simp] theorem granting_nil (c : Fickle σ) : c.granting [] = c := by
  cases c
  simp [granting, Holdings.fill]

@[simp] theorem granting_granting (c : Fickle σ) (vs ws : List Entry) :
    (c.granting vs).granting ws = c.granting (vs ++ ws) := by
  simp [granting, Holdings.fill_append]

/-- How a job ends that asks for the writes in turn and then answers `a`: either none is refused, or those before the
first refused one are carried out, the answer is its error, and the rest is not asked for. -/
inductive InTurn {α : Type} (a : α) (c : Fickle σ) (ws : List Entry) : Except Error α × Fickle σ → Prop
  | all (granted : c.Grants ws) : InTurn a c ws (.ok a, c.granting ws)
  | upTo (done : List Entry) (w : Entry) (rest : List Entry) (e : Error) (split : ws = done ++ w :: rest)
      (granted : c.Grants done) (refused : c.refuses (.write w :: (c.granting done).asked) = some e) :
      InTurn a c ws (.error e, (c.granting done).noting (.write w))

/-- One more write in front that is not refused. -/
theorem InTurn.cons {α : Type} {a : α} {c : Fickle σ} {w : Entry} {ws : List Entry} {outcome : Except Error α × Fickle σ}
    (hw : c.refuses (.write w :: c.asked) = none) (h : InTurn a (c.granting [w]) ws outcome) :
    InTurn a c (w :: ws) outcome := by
  cases h with
  | all granted =>
    rw [granting_granting]
    exact .all ⟨hw, granted⟩
  | upTo done v rest e split granted refused =>
    rw [granting_granting] at refused ⊢
    exact .upTo (w :: done) v rest e (congrArg (w :: ·) split) ⟨hw, granted⟩ refused

/-- What is done with the answer changes nothing else. -/
theorem InTurn.map {α β : Type} {a : α} {c : Fickle σ} {ws : List Entry} {w : Job (Fickle σ) α}
    (h : InTurn a c ws (w c)) (f : α → β) : InTurn (f a) c ws ((w >>= fun x => pure (f x)) c) := by
  generalize hc : w c = outcome at h
  cases h with
  | all granted =>
    rw [Job.bind_of_ok hc]
    exact .all granted
  | upTo done v rest e split granted refused =>
    rw [Job.bind_of_error hc]
    exact .upTo done v rest e split granted refused

end Fickle

/-- **Titles are written in turn**, up to the first that is refused. -/
theorem Work.writeAll_inTurn {σ : Type} [Holdings σ] (s : Status) :
    ∀ (ts : List Text) (c : Fickle σ), Fickle.InTurn () c (ts.map fun t => ⟨t, s⟩) (Work.writeAll s ts c)
  | [], c => by
    have hnone : Fickle.InTurn () c [] (.ok (), c.granting []) := .all trivial
    rwa [Fickle.granting_nil] at hnone
  | t :: ts, c => by
    rw [Work.writeAll, List.map_cons]
    cases h : c.refuses (.write ⟨t, s⟩ :: c.asked) with
    | none =>
      rw [Job.bind_of_ok (Fickle.write_granted h)]
      exact (Work.writeAll_inTurn s ts _).cons h
    | some e =>
      have hfirst : Fickle.InTurn () c (⟨t, s⟩ :: ts.map fun t => ⟨t, s⟩)
          (.error e, (c.granting []).noting (.write ⟨t, s⟩)) :=
        .upTo [] ⟨t, s⟩ _ e rfl trivial (by rwa [Fickle.granting_nil])
      rw [Job.bind_of_error (Fickle.write_refused h)]
      rwa [Fickle.granting_nil] at hfirst

/-! ## The titles of a list -/

namespace Title

theorem clean_of_mem_ofList {raw t : Text} (h : t ∈ ofList raw) : Clean t := clean_of_mem_ofAll h

theorem unseparated_of_mem_ofList {raw t : Text} (h : t ∈ ofList raw) : t.any isSeparator = false := by
  obtain ⟨piece, hpiece, rfl⟩ := List.mem_map.1 (List.mem_filter.1 h).1
  refine List.any_eq_false.2 fun c hc => Bool.not_eq_true _ ▸ ?_
  rcases mem_normalize hc with rfl | ⟨hmem, -⟩
  · rfl
  · exact Text.free_of_mem_pieces hpiece c hmem

end Title

section
variable {κ : Type} [Keeper κ]

/-- A text that names a title has its normal form written. -/
theorem Library.put_eq_of_named {raw : Text} (h : Title.normalize raw ≠ []) (s : Status) :
    (Library.put s raw : Job κ Text) = do
      Work.write (Title.normalize raw) s
      return Title.normalize raw :=
  if_neg (by simpa using h)

/-- A clean title is written as it is. -/
theorem Library.put_of_clean {t : Text} (h : Title.Clean t) (s : Status) :
    (Library.put s t : Job κ Text) = do
      Work.write t s
      return t := by
  have hnamed : Title.normalize t ≠ [] := by
    rw [h.normal]
    exact h.named
  rw [Library.put_eq_of_named hnamed, h.normal]

theorem Library.add_of_clean {t : Text} (h : Title.Clean t) (hsep : t.any Title.isSeparator = false) :
    (Library.add t : Job κ Added) = do
      Work.write t .wanted
      return .one t := by
  rw [Library.add, if_neg (Bool.eq_false_iff.1 hsep), Library.put_of_clean h]
  simp only [bind_assoc, pure_bind]

theorem Library.setStatus_of_clean {t : Text} (h : Title.Clean t) (word : Text) :
    (Library.setStatus t word : Job κ (Text × Status)) = do
      Work.write t (Status.ofWord word)
      return (t, Status.ofWord word) := by
  rw [Library.setStatus, Library.put_of_clean h]
  simp only [bind_assoc, pure_bind]

/-- Jobs that each write a title, one after the other. -/
theorem Work.mapM_writes {α : Type} {job : Text → Job κ α} {answer : Text → α} {s : Status} :
    ∀ {ts : List Text}, (∀ t ∈ ts, job t = do
        Work.write t s
        return answer t) →
      ts.mapM job = do
        Work.writeAll s ts
        return ts.map answer
  | [], _ => by rw [List.mapM_nil, Work.writeAll, pure_bind, List.map_nil]
  | t :: ts, h => by
    obtain ⟨ht, hts⟩ := List.forall_mem_cons.1 h
    rw [List.mapM_cons, ht, Work.mapM_writes hts, Work.writeAll]
    simp only [bind_assoc, pure_bind, List.map_cons]

end

/-! ## Tools for lists -/

namespace Bulk

/-- The titles of a list written with a status, as the work of jobs that each write one of them. -/
theorem put_eq_mapM {κ α : Type} [Keeper κ] {job : Text → Job κ α} {s : Status} {titles : Text} (answer : Text → α)
    (h : ∀ t ∈ Title.ofList titles, job t = do
      Work.write t s
      return answer t) : Bulk.put s titles = List.length <$> (Title.ofList titles).mapM job := by
  rw [Work.mapM_writes h, Bulk.put]
  simp only [map_eq_pure_bind, bind_assoc, pure_bind, List.length_map]

theorem put_inTurn {σ : Type} [Holdings σ] (s : Status) (titles : Text) (c : Fickle σ) :
    Fickle.InTurn (Title.ofList titles).length c ((Title.ofList titles).map fun t => ⟨t, s⟩) (Bulk.put s titles c) :=
  (Work.writeAll_inTurn s (Title.ofList titles) c).map fun _ => (Title.ofList titles).length

/-- **A tool for a list is the tool for one title in turn.**  On any keeper, to add a list, to remove it or to set its
status is to add, to remove or to set the status of each title of the list, one after the other until the first error;
the answer is the number of the titles.  So on a catalog that refuses requests as it likes the titles are written with
the status up to the first that is refused, whose error is the answer, and none behind it is asked for. -/
theorem in_turn (titles : Text) :
    let ts := Title.ofList titles
    (∀ (κ : Type) [Keeper κ],
      (Bulk.add titles : Job κ Nat) = List.length <$> ts.mapM Library.add ∧
      (Bulk.remove titles : Job κ Nat) = List.length <$> ts.mapM Library.remove ∧
      ∀ word, (Bulk.setStatus titles word : Job κ (Nat × Status)) =
        (fun answers => (answers.length, Status.ofWord word)) <$> ts.mapM fun t => Library.setStatus t word) ∧
    ∀ c : Fickle Shelf,
      Fickle.InTurn ts.length c (ts.map fun t => ⟨t, .wanted⟩) (Bulk.add titles c) ∧
      Fickle.InTurn ts.length c (ts.map fun t => ⟨t, .disliked⟩) (Bulk.remove titles c) ∧
      ∀ word, Fickle.InTurn (ts.length, Status.ofWord word) c (ts.map fun t => ⟨t, Status.ofWord word⟩)
        (Bulk.setStatus titles word c) := by
  intro ts
  have hclean : ∀ t ∈ ts, Title.Clean t := fun t => Title.clean_of_mem_ofList
  constructor
  · intro κ _
    refine ⟨put_eq_mapM .one fun t ht => ?_, put_eq_mapM id fun t ht => ?_, fun word => ?_⟩
    · exact Library.add_of_clean (hclean t ht) (Title.unseparated_of_mem_ofList ht)
    · exact Library.put_of_clean (hclean t ht) .disliked
    · have hput : (Bulk.put (Status.ofWord word) titles : Job κ Nat) =
          List.length <$> ts.mapM fun t => Library.setStatus t word :=
        put_eq_mapM (fun t => (t, Status.ofWord word)) fun t ht => Library.setStatus_of_clean (hclean t ht) word
      rw [setStatus, hput]
      simp only [map_eq_pure_bind, bind_assoc, pure_bind]
  · intro c
    refine ⟨put_inTurn .wanted titles c, put_inTurn .disliked titles c, fun word => ?_⟩
    exact (put_inTurn (Status.ofWord word) titles c).map fun n => (n, Status.ofWord word)

end Bulk
end WatchList
