import Mathlib.Data.List.Nodup
import WatchList.Catalog.Shelf
/-!
# The history of a catalog

A catalog forgets all but the last write of each title.  Which titles are one is told by a **key**: lower-case forms in
memory, ASCII case in a file.  `overwriteAll key es ws` are the entries that the writes `ws` leave of `es`, the least
recently written first.

* No key is lost, and no key is there twice (`mem_keys_overwriteAll`, `nodup_keys_overwriteAll`).
* What no write names stays as it is, in its order (`filter_untouched_overwriteAll`).
* A key that takes fewer titles for one keeps more entries (`overwriteAll_sublist`), and the same entries only if it
  takes the same written titles for one (`overwriteAll_eq_iff`).

A shelf is such a list (`Shelf.entries_fill`).
-/
namespace WatchList

/-- The holdings after the writes, carried out in order. -/
def Holdings.fill {σ : Type} [Holdings σ] (h : σ) (ws : List Entry) : σ :=
  ws.foldl (fun h w => Holdings.put w.title w.status h) h

theorem Holdings.fill_append {σ : Type} [Holdings σ] (h : σ) (vs ws : List Entry) :
    Holdings.fill h (vs ++ ws) = Holdings.fill (Holdings.fill h vs) ws := List.foldl_append

section
variable {β : Type} [DecidableEq β] (key : Text → β)

def keys (es : List Entry) : List β := es.map fun e => key e.title

/-- The write takes the entries of its title off the list and goes to the end. -/
def overwrite (es : List Entry) (w : Entry) : List Entry := (es.filter fun e => key e.title ≠ key w.title) ++ [w]

def overwriteAll (es ws : List Entry) : List Entry := ws.foldl (overwrite key) es

/-- None of the writes is of the title of the entry. -/
def untouched (ws : List Entry) (e : Entry) : Bool := key e.title ∉ keys key ws

/-! ## One write -/

theorem mem_keys_overwrite (es : List Entry) (w : Entry) (k : β) :
    k ∈ keys key (overwrite key es w) ↔ k ∈ keys key es ∨ k = key w.title := by
  simp only [keys, overwrite, List.map_append, List.mem_append, List.mem_map, List.mem_filter, decide_eq_true_eq,
    List.map_singleton, List.mem_singleton]
  by_cases h : k = key w.title
  · simp [h]
  · constructor
    · rintro (⟨e, ⟨he, -⟩, rfl⟩ | hk)
      · exact .inl ⟨e, he, rfl⟩
      · exact .inr hk
    · rintro (⟨e, he, rfl⟩ | hk)
      · exact .inl ⟨e, ⟨he, h⟩, rfl⟩
      · exact .inr hk

theorem nodup_keys_overwrite {es : List Entry} (h : (keys key es).Nodup) (w : Entry) :
    (keys key (overwrite key es w)).Nodup := by
  unfold keys overwrite at *
  rw [List.map_append, List.nodup_append]
  refine ⟨h.sublist (List.filter_sublist.map _), List.nodup_singleton _, ?_⟩
  intro k hk k' hk'
  obtain ⟨e, he, rfl⟩ := List.mem_map.1 hk
  rw [List.map_singleton, List.mem_singleton] at hk'
  rw [hk']
  simpa using (List.mem_filter.1 he).2

theorem filter_key_overwrite (es : List Entry) (w : Entry) :
    (overwrite key es w).filter (fun e => key e.title = key w.title) = [w] := by
  have hnone : (es.filter fun e => key e.title ≠ key w.title).filter (fun e => key e.title = key w.title) = [] := by
    rw [List.filter_filter, List.filter_eq_nil_iff]
    simp
  rw [overwrite, List.filter_append, hnone, List.nil_append, List.filter_singleton]
  simp

/-- A write leaves alone what its title has nothing to do with. -/
theorem filter_overwrite {p : Entry → Bool} {w : Entry} (hw : p w = false)
    (hp : ∀ e, p e = true → key e.title ≠ key w.title) (es : List Entry) :
    (overwrite key es w).filter p = es.filter p := by
  have hkept : (es.filter fun e => key e.title ≠ key w.title).filter p = es.filter p := by
    rw [List.filter_filter]
    refine List.filter_congr fun e _ => ?_
    cases he : p e with
    | true => simpa using hp e he
    | false => rfl
  rw [overwrite, List.filter_append, hkept, List.filter_singleton, hw]
  exact List.append_nil _

theorem filter_key_overwrite_of_ne {w : Entry} {k : β} (hne : key w.title ≠ k) (es : List Entry) :
    (overwrite key es w).filter (fun e => key e.title = k) = es.filter fun e => key e.title = k := by
  refine filter_overwrite key (by simpa using hne) (fun e he => ?_) es
  rw [of_decide_eq_true he]
  exact Ne.symm hne

theorem filter_untouched_overwrite (es : List Entry) (w : Entry) :
    (overwrite key es w).filter (untouched key [w]) = es.filter (untouched key [w]) := by
  refine filter_overwrite key ?_ (fun e he => ?_) es
  · simp [untouched, keys]
  · simpa [untouched, keys] using he

/-! ## Writes in a row -/

theorem overwriteAll_cons (es : List Entry) (w : Entry) (ws : List Entry) :
    overwriteAll key es (w :: ws) = overwriteAll key (overwrite key es w) ws := rfl

theorem mem_keys_overwriteAll (es ws : List Entry) (k : β) :
    k ∈ keys key (overwriteAll key es ws) ↔ k ∈ keys key es ∨ k ∈ keys key ws := by
  induction ws generalizing es with
  | nil => simp [overwriteAll, keys]
  | cons w ws ih =>
    rw [overwriteAll_cons, ih, mem_keys_overwrite, or_assoc, keys, keys, keys, List.map_cons, List.mem_cons]

theorem nodup_keys_overwriteAll {es : List Entry} (h : (keys key es).Nodup) (ws : List Entry) :
    (keys key (overwriteAll key es ws)).Nodup := by
  induction ws generalizing es with
  | nil => exact h
  | cons w ws ih => exact ih (nodup_keys_overwrite key h w)

theorem untouched_cons (w : Entry) (ws : List Entry) (e : Entry) :
    untouched key (w :: ws) e = (untouched key [w] e && untouched key ws e) := by
  simp [untouched, keys]

/-- **What no write names stays as it is**: the entries whose titles are not written are the same, in the same order. -/
theorem filter_untouched_overwriteAll (es ws : List Entry) :
    (overwriteAll key es ws).filter (untouched key ws) = es.filter (untouched key ws) := by
  induction ws generalizing es with
  | nil => rfl
  | cons w ws ih =>
    have hsplit : untouched key (w :: ws) = fun e => untouched key [w] e && untouched key ws e :=
      funext (untouched_cons key w ws)
    have hswap : (fun e => untouched key [w] e && untouched key ws e) =
        fun e => untouched key ws e && untouched key [w] e := funext fun e => Bool.and_comm _ _
    rw [overwriteAll_cons, hsplit, ← List.filter_filter, ih, List.filter_filter, hswap, ← List.filter_filter,
      filter_untouched_overwrite, List.filter_filter]

/-- Entries with different keys, written in order, are left as they are. -/
theorem overwriteAll_of_nodup {es ws : List Entry} (h : (keys key (es ++ ws)).Nodup) :
    overwriteAll key es ws = es ++ ws := by
  induction ws generalizing es with
  | nil => exact (List.append_nil es).symm
  | cons w ws ih =>
    have hkept : overwrite key es w = es ++ [w] := by
      rw [overwrite, List.filter_eq_self.2]
      intro e he
      rw [keys, List.map_append, List.nodup_append] at h
      simpa using h.2.2 _ (List.mem_map_of_mem he) (key w.title) (by simp)
    rw [overwriteAll_cons, hkept, ih (by rwa [List.append_assoc]), List.append_assoc]
    rfl

end

/-! ## Two keys -/

section
variable {β γ : Type} [DecidableEq β] [DecidableEq γ] {coarse : Text → β} {fine : Text → γ}

theorem overwriteAll_congr {es ws : List Entry}
    (h : ∀ v ∈ es ++ ws, ∀ w ∈ es ++ ws, coarse v.title = coarse w.title ↔ fine v.title = fine w.title) :
    overwriteAll coarse es ws = overwriteAll fine es ws := by
  induction ws generalizing es with
  | nil => rfl
  | cons w ws ih =>
    have hw : w ∈ es ++ w :: ws := List.mem_append_right _ List.mem_cons_self
    have hone : overwrite coarse es w = overwrite fine es w := by
      unfold overwrite
      congr 1
      refine List.filter_congr fun e he => ?_
      simpa using h e (List.mem_append_left _ he) w hw
    have hsub : ∀ v ∈ overwrite fine es w ++ ws, v ∈ es ++ w :: ws := by
      intro v hv
      rcases List.mem_append.1 hv with hv | hv
      · rcases List.mem_append.1 hv with hv | hv
        · exact List.mem_append_left _ (List.mem_filter.1 hv).1
        · rwa [List.mem_singleton.1 hv]
      · exact List.mem_append_right _ (List.mem_cons_of_mem w hv)
    rw [overwriteAll_cons, overwriteAll_cons, hone]
    exact ih fun v hv w hw => h v (hsub v hv) w (hsub w hw)

variable (hfine : ∀ s t, fine s = fine t → coarse s = coarse t)
include hfine

/-- **The finer key keeps more**: what it takes for one title, the coarser one does too. -/
theorem overwriteAll_sublist {es es' : List Entry} (h : es.Sublist es') (ws : List Entry) :
    (overwriteAll coarse es ws).Sublist (overwriteAll fine es' ws) := by
  induction ws generalizing es es' with
  | nil => exact h
  | cons w ws ih =>
    refine ih (List.Sublist.append ((h.filter _).trans ?_) (List.Sublist.refl _))
    refine List.monotone_filter_right es' fun e he => ?_
    simp only [decide_eq_true_eq] at he ⊢
    exact fun heq => he (hfine _ _ heq)

/-- **Two keys keep the same entries** exactly when the coarser one takes no more of the written titles for one. -/
theorem overwriteAll_eq_iff (ws : List Entry) :
    overwriteAll coarse [] ws = overwriteAll fine [] ws ↔
      ∀ v ∈ ws, ∀ w ∈ ws, coarse v.title = coarse w.title → fine v.title = fine w.title := by
  constructor
  · intro heq v hv w hw hvw
    -- each title has an entry with its fine key, and the coarse key tells those apart
    have hlast : ∀ u ∈ ws, ∃ e ∈ overwriteAll coarse [] ws, fine e.title = fine u.title := by
      intro u hu
      rw [heq]
      exact List.mem_map.1 ((mem_keys_overwriteAll fine [] ws _).2 (.inr (List.mem_map_of_mem hu)))
    obtain ⟨e, he, hev⟩ := hlast v hv
    obtain ⟨e', he', hew⟩ := hlast w hw
    have hkey : coarse e.title = coarse e'.title := by
      rw [hfine _ _ hev, hfine _ _ hew, hvw]
    have hnil : (keys coarse []).Nodup := List.nodup_nil
    have hnodup := nodup_keys_overwriteAll coarse hnil ws
    have hee : e = e' := List.inj_on_of_nodup_map hnodup he he' hkey
    rw [← hev, hee, hew]
  · intro h
    exact overwriteAll_congr fun v hv w hw => ⟨h v hv w hw, hfine _ _⟩

end

/-! ## Listings -/

/-- The titles of a status among entries, the most recently written first. -/
def listed (s : Status) (es : List Entry) : List Text := (es.reverse.filter fun e => e.status == s).map Entry.title

theorem length_listed (es : List Entry) :
    (listed .wanted es).length + (listed .seen es).length + (listed .disliked es).length = es.length := by
  have hcount : ∀ s, (listed s es).length = es.countP fun e => e.status == s := by
    intro s
    rw [listed, List.length_map, ← List.countP_eq_length_filter, List.countP_reverse]
  rw [hcount, hcount, hcount]
  clear hcount
  induction es with
  | nil => rfl
  | cons e es ih =>
    simp only [List.countP_cons, List.length_cons]
    cases e.status <;> simp <;> omega

/-- Entries of which some are left out are listed differently. -/
theorem listed_eq_iff {es es' : List Entry} (h : es.Sublist es') :
    (∀ s, listed s es = listed s es') ↔ es = es' := by
  constructor
  · intro heq
    refine h.eq_of_length ?_
    rw [← length_listed es, ← length_listed es', heq, heq, heq]
  · rintro rfl s
    rfl

/-! ## The catalog in memory -/

namespace Shelf

theorem entries_put (title : Text) (status : Status) (s : Shelf) :
    (s.put title status).entries = overwrite Text.lowercase s.entries ⟨title, status⟩ := by
  have hsame : (fun e : Entry => !same e.title title) = fun e => decide (e.title.lowercase ≠ title.lowercase) := by
    funext e
    rw [same, Bool.eq_iff_iff]
    simp
  rw [put, hsame, overwrite]

theorem entries_fill (s : Shelf) (ws : List Entry) :
    (Holdings.fill s ws).entries = overwriteAll Text.lowercase s.entries ws := by
  induction ws generalizing s with
  | nil => rfl
  | cons w ws ih => exact (ih (s.put w.title w.status)).trans (by rw [entries_put, overwriteAll_cons])

end Shelf
end WatchList
