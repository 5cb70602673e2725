import Mathlib.Data.Finset.Card
import WatchList.Proofs.History
/-!
# The latest of each kind

`latestBy key` keeps, of the members of a list with one key, the last.  Of a history of writes it keeps what a catalog
still knows: a list of entries, once written over, is its untouched entries and then the latest writes
(`overwriteAll_eq`).  So a catalog in memory that starts empty answers every question from its history
(`Shelf.fill_recalls`).
-/
namespace WatchList

section
variable {α β : Type} [DecidableEq β] (key : α → β)

/-- The members that no later member with the same key follows. -/
def latestBy : List α → List α
  | [] => []
  | a :: as => if key a ∈ as.map key then latestBy as else a :: latestBy as

theorem latestBy_append_singleton (a : α) :
    ∀ as : List α, latestBy key (as ++ [a]) = (latestBy key as).filter (fun b => key b ≠ key a) ++ [a]
  | [] => by simp [latestBy]
  | b :: bs => by
    have ih := latestBy_append_singleton a bs
    simp only [List.cons_append, latestBy, List.map_append, List.map_singleton, List.mem_append, List.mem_singleton]
    by_cases hb : key b ∈ bs.map key
    · rw [if_pos (.inl hb), if_pos hb, ih]
    · by_cases hba : key b = key a
      · rw [if_pos (.inr hba), if_neg hb, ih, List.filter_cons_of_neg (by simpa using hba)]
      · rw [if_neg (by simp [hb, hba]), if_neg hb, ih, List.filter_cons_of_pos (by simpa using hba), List.cons_append]

theorem sublist_latestBy : ∀ as : List α, (latestBy key as).Sublist as
  | [] => .slnil
  | a :: as => by
    unfold latestBy
    split
    · exact (sublist_latestBy as).cons a
    · exact (sublist_latestBy as).cons_cons a

theorem mem_map_latestBy (k : β) : ∀ as : List α, k ∈ (latestBy key as).map key ↔ k ∈ as.map key
  | [] => Iff.rfl
  | a :: as => by
    have ih := mem_map_latestBy k as
    unfold latestBy
    split
    · rename_i ha
      rw [ih, List.map_cons, List.mem_cons]
      exact ⟨.inr, fun h => h.elim (fun hk => hk ▸ ha) id⟩
    · rw [List.map_cons, List.map_cons, List.mem_cons, List.mem_cons, ih]

theorem nodup_map_latestBy : ∀ as : List α, ((latestBy key as).map key).Nodup
  | [] => .nil
  | a :: as => by
    unfold latestBy
    split
    · exact nodup_map_latestBy as
    · rename_i ha
      rw [List.map_cons, List.nodup_cons, mem_map_latestBy]
      exact ⟨ha, nodup_map_latestBy as⟩

/-- A member is one of the latest exactly if it stands where no later one has its key. -/
theorem mem_latestBy_iff (a : α) :
    ∀ as : List α, a ∈ latestBy key as ↔ ∃ us vs, as = us ++ a :: vs ∧ key a ∉ vs.map key
  | [] => by simp [latestBy]
  | b :: bs => by
    have ih := mem_latestBy_iff a bs
    have hlater : (∃ us vs, b :: bs = us ++ a :: vs ∧ key a ∉ vs.map key) ↔
        (b = a ∧ key a ∉ bs.map key) ∨ ∃ us vs, bs = us ++ a :: vs ∧ key a ∉ vs.map key := by
      constructor
      · rintro ⟨us, vs, heq, hvs⟩
        cases us with
        | nil =>
          obtain ⟨rfl, rfl⟩ := List.cons.inj heq
          exact .inl ⟨rfl, hvs⟩
        | cons u us => exact .inr ⟨us, vs, (List.cons.inj heq).2, hvs⟩
      · rintro (⟨rfl, hbs⟩ | ⟨us, vs, rfl, hvs⟩)
        · exact ⟨[], bs, rfl, hbs⟩
        · exact ⟨b :: us, vs, rfl, hvs⟩
    rw [hlater, ← ih]
    by_cases hb : key b ∈ bs.map key
    · rw [latestBy, if_pos hb]
      exact ⟨.inr, fun h => h.elim (fun ⟨heq, hnot⟩ => absurd (heq ▸ hb) hnot) id⟩
    · rw [latestBy, if_neg hb, List.mem_cons]
      constructor
      · rintro (rfl | h)
        · exact .inl ⟨rfl, hb⟩
        · exact .inr h
      · rintro (⟨rfl, -⟩ | h)
        · exact .inl rfl
        · exact .inr h

/-- Among the latest there is at most one with a key: the last of all. -/
theorem find?_latestBy (k : β) :
    ∀ as : List α, (latestBy key as).find? (fun a => key a = k) = as.findRev? fun a => key a = k
  | [] => rfl
  | a :: as => by
    have ih := find?_latestBy k as
    rw [List.findRev?, ← ih]
    by_cases ha : key a ∈ as.map key
    · rw [latestBy, if_pos ha]
      by_cases hk : key a = k
      · have hfound : ((latestBy key as).find? fun b => key b = k).isSome := by
          rw [List.find?_isSome]
          obtain ⟨b, hb, hba⟩ := List.mem_map.1 ((mem_map_latestBy key _ as).2 ha)
          exact ⟨b, hb, by simpa using hba.trans hk⟩
        obtain ⟨b, hb⟩ := Option.isSome_iff_exists.1 hfound
        simp only [hb]
      · cases (latestBy key as).find? fun b => key b = k <;> simp [hk]
    · rw [latestBy, if_neg ha]
      by_cases hk : key a = k
      · have hnone : (latestBy key as).find? (fun b => key b = k) = none := by
          rw [ih, List.findRev?_eq_find?_reverse]
          simpa [hk] using ha
        simp [hk, hnone]
      · rw [List.find?_cons_of_neg (by simpa using hk)]
        cases (latestBy key as).find? fun b => key b = k <;> simp [hk]

theorem latestBy_congr {γ : Type} [DecidableEq γ] {key : α → β} {key' : α → γ} :
    ∀ {as : List α}, (∀ a ∈ as, ∀ b ∈ as, key a = key b ↔ key' a = key' b) → latestBy key as = latestBy key' as
  | [], _ => rfl
  | a :: as, h => by
    have ih : latestBy key as = latestBy key' as :=
      latestBy_congr fun b hb c hc => h b (List.mem_cons_of_mem a hb) c (List.mem_cons_of_mem a hc)
    have hmem : key a ∈ as.map key ↔ key' a ∈ as.map key' := by
      simp only [List.mem_map]
      refine exists_congr fun b => and_congr_right fun hb => ?_
      exact h b (List.mem_cons_of_mem a hb) a List.mem_cons_self
    simp only [latestBy, hmem, ih]

variable {key}

/-- Where a key is there once at most, what is found under it does not depend on the order. -/
theorem find?_eq_some_iff_of_nodup {as : List α} (h : (as.map key).Nodup) {k : β} {a : α} :
    as.find? (fun a => key a = k) = some a ↔ a ∈ as ∧ key a = k := by
  constructor
  · intro ha
    exact ⟨List.mem_of_find?_eq_some ha, by simpa using List.find?_some ha⟩
  · rintro ⟨ha, rfl⟩
    obtain ⟨b, hb⟩ : ∃ b, as.find? (fun b => key b = key a) = some b :=
      Option.isSome_iff_exists.1 (List.find?_isSome.2 ⟨a, ha, by simp⟩)
    have hkey : key b = key a := by simpa using List.find?_some hb
    rw [hb, List.inj_on_of_nodup_map h (List.mem_of_find?_eq_some hb) ha hkey]

theorem find?_eq_of_perm {as bs : List α} (hperm : as.Perm bs) (h : (as.map key).Nodup) (k : β) :
    as.find? (fun a => key a = k) = bs.find? (fun a => key a = k) := by
  have h' : (bs.map key).Nodup := (hperm.map key).nodup_iff.1 h
  ext a
  rw [find?_eq_some_iff_of_nodup h, find?_eq_some_iff_of_nodup h', hperm.mem_iff]

end

/-! ## Histories -/

section
variable {β : Type} [DecidableEq β] (key : Text → β)

/-- **What writes leave of a list of entries**: those that no write names, and then the latest writes. -/
theorem overwriteAll_eq (es ws : List Entry) :
    overwriteAll key es ws = es.filter (untouched key ws) ++ latestBy (fun w => key w.title) ws := by
  induction ws generalizing es with
  | nil =>
    have hall : ∀ e ∈ es, untouched key [] e = true := by simp [untouched, keys]
    rw [List.filter_eq_self.2 hall, latestBy, List.append_nil]
    rfl
  | cons w ws ih =>
    have hkept : (es.filter fun e => key e.title ≠ key w.title).filter (untouched key ws) =
        es.filter (untouched key (w :: ws)) := by
      rw [List.filter_filter]
      refine List.filter_congr fun e _ => ?_
      rw [untouched_cons, Bool.and_comm]
      simp [untouched, keys]
    rw [overwriteAll_cons, ih, overwrite, List.filter_append, hkept, List.append_assoc, latestBy]
    by_cases hw : key w.title ∈ ws.map fun v => key v.title
    · simp [untouched, keys, hw]
    · simp [untouched, keys, hw]

theorem overwriteAll_nil (ws : List Entry) : overwriteAll key [] ws = latestBy (fun w => key w.title) ws :=
  overwriteAll_eq key [] ws

end

/-! ## The catalog in memory -/

namespace Shelf

theorem same_eq (s t : Text) : same s t = decide (s.lowercase = t.lowercase) := by
  rw [same, Bool.eq_iff_iff]
  simp

/-- **A shelf is what its history says.**  After any writes on an empty shelf its entries are the latest write of each
title, the least recent first.  So no two entries agree in small letters, there are as many as titles that differ in
small letters were written, the status of a title is that of its last write, and a listing shows the titles whose last
write had the status, as they were last written, the most recent first. -/
theorem fill_recalls (ws : List Entry) :
    let s : Shelf := Holdings.fill {} ws
    let latest := latestBy (fun w => w.title.lowercase) ws
    s.entries.Pairwise (fun e e' => e.title.lowercase ≠ e'.title.lowercase) ∧
      s.length = (ws.map fun w => w.title.lowercase).toFinset.card ∧
      (∀ t, s.statusOf? t = (ws.findRev? fun w => same w.title t).map Entry.status) ∧
      (∀ status, s.titles status = (latest.reverse.filter fun w => w.status == status).map Entry.title) ∧
      ∀ w, w ∈ latest ↔ ∃ us vs, ws = us ++ w :: vs ∧ ∀ v ∈ vs, v.title.lowercase ≠ w.title.lowercase := by
  intro s latest
  have hentries : s.entries = latest := by
    rw [entries_fill, overwriteAll_nil]
  have hnodup : (latest.map fun w => w.title.lowercase).Nodup := nodup_map_latestBy _ ws
  refine ⟨?_, ?_, fun t => ?_, fun status => ?_, fun w => ?_⟩
  · rw [hentries]
    exact List.pairwise_map.1 hnodup
  · have hsame : (ws.map fun w => w.title.lowercase).toFinset = (latest.map fun w => w.title.lowercase).toFinset := by
      ext k
      rw [List.mem_toFinset, List.mem_toFinset, mem_map_latestBy]
    rw [hsame, List.toFinset_card_of_nodup hnodup, List.length_map, length, hentries]
  · rw [statusOf?, hentries]
    simp only [same_eq]
    rw [find?_latestBy]
  · rw [titles, hentries]
  · rw [mem_latestBy_iff]
    simp [eq_comm]

end Shelf
end WatchList
