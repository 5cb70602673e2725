import WatchList.Plan
import WatchList.Proofs.Steering
/-!
# Clean titles

A title is clean if it is in its normal form and not empty.  The normal form of a text is its own normal form
(`Title.normalize_normalize`): the words of words put one space apart are those words (`Text.words_joined`).  So every
way to read titles from a text gives clean ones: from a list, from quotations, from what stands between them, and from an
instruction (`Plan.clean_of_mem_ofText`).
-/
namespace WatchList
namespace Text

theorem pieces_of_free {α : Type} {cut : α → Bool} : ∀ {w : List α}, (∀ c ∈ w, cut c = false) → pieces cut w = [w]
  | [], _ => rfl
  | c :: w, h => by
    have ih := pieces_of_free (w := w) fun d hd => h d (List.mem_cons_of_mem c hd)
    simp [pieces, h c List.mem_cons_self, ih]

/-- A cut parts the pieces before it from those behind it. -/
theorem pieces_append {α : Type} {cut : α → Bool} {c : α} (hc : cut c = true) (t : List α) :
    ∀ w : List α, pieces cut (w ++ c :: t) = pieces cut w ++ pieces cut t
  | [] => by simp [pieces, hc]
  | d :: w => by
    have ih := pieces_append hc t w
    obtain ⟨v, vs, hv⟩ := List.exists_cons_of_ne_nil (pieces_ne_nil cut w)
    rw [hv] at ih
    cases hd : cut d <;> simp [pieces, hd, ih, hv]

/-- A character that does not cut goes to the first piece. -/
theorem pieces_cons {α : Type} {cut : α → Bool} {c : α} (hc : cut c = false) (t : List α) :
    ∃ w ws, pieces cut t = w :: ws ∧ pieces cut (c :: t) = (c :: w) :: ws := by
  obtain ⟨w, ws, hw⟩ := List.exists_cons_of_ne_nil (pieces_ne_nil cut t)
  exact ⟨w, ws, hw, by rw [pieces, hw, if_neg (Bool.eq_false_iff.1 hc)]⟩

/-- Characters that do not cut go to the first piece. -/
theorem pieces_append_free {α : Type} {cut : α → Bool} {w : List α} (hw : ∀ c ∈ w, cut c = false) (t : List α) :
    ∃ v vs, pieces cut t = v :: vs ∧ pieces cut (w ++ t) = (w ++ v) :: vs := by
  obtain ⟨v, vs, hv⟩ := List.exists_cons_of_ne_nil (pieces_ne_nil cut t)
  refine ⟨v, vs, hv, ?_⟩
  induction w with
  | nil => exact hv
  | cons c w ih =>
    obtain ⟨hc, hw⟩ := List.forall_mem_cons.1 hw
    obtain ⟨u, us, hu, hcu⟩ := pieces_cons hc (w ++ t)
    obtain ⟨rfl, rfl⟩ := List.cons.inj (hu.symm.trans (ih hw))
    exact hcu

theorem free_of_mem_pieces {α : Type} {cut : α → Bool} :
    ∀ {t w : List α}, w ∈ pieces cut t → ∀ c ∈ w, cut c = false
  | [], w, hw, c, hc => by
    rw [List.mem_singleton.1 hw] at hc
    cases hc
  | d :: t, w, hw, c, hc => by
    obtain ⟨v, vs, hv⟩ := List.exists_cons_of_ne_nil (pieces_ne_nil cut t)
    have ih : ∀ u ∈ v :: vs, ∀ c ∈ u, cut c = false := fun u hu => free_of_mem_pieces (by rwa [hv])
    rw [pieces, hv] at hw
    by_cases hd : cut d = true
    · rw [if_pos hd] at hw
      rcases List.mem_cons.1 hw with rfl | hw
      · cases hc
      · exact ih w hw c hc
    · rw [if_neg hd] at hw
      rcases List.mem_cons.1 hw with rfl | hw
      · rcases List.mem_cons.1 hc with rfl | hc
        · simpa using hd
        · exact ih v List.mem_cons_self c hc
      · exact ih w (List.mem_cons_of_mem v hw) c hc

/-- One of the words that a text can have. -/
def IsWord (w : Text) : Prop := w ≠ [] ∧ ∀ c ∈ w, isBlank c = false

theorem isWord_of_mem_words {t w : Text} (h : w ∈ words t) : IsWord w := by
  obtain ⟨hw, hne⟩ := List.mem_filter.1 h
  exact ⟨by simpa using hne, free_of_mem_pieces hw⟩

/-- What is joined with a cut between is cut into what was joined. -/
theorem pieces_joined {cut : Char → Bool} {c : Char} (hc : cut c = true) :
    ∀ {ws : List Text}, ws ≠ [] → (∀ w ∈ ws, ∀ d ∈ w, cut d = false) → pieces cut (joined [c] ws) = ws
  | [], hne, _ => absurd rfl hne
  | [w], _, h => pieces_of_free (h w List.mem_cons_self)
  | w :: v :: ws, _, h => by
    obtain ⟨hfree, hvs⟩ := List.forall_mem_cons.1 h
    have ih : pieces cut (joined [c] (v :: ws)) = v :: ws := pieces_joined hc (List.cons_ne_nil v ws) hvs
    rw [joined, List.append_assoc, List.singleton_append, pieces_append hc, pieces_of_free hfree, ih]
    · rfl
    · exact List.cons_ne_nil v ws

theorem words_joined {ws : List Text} (h : ∀ w ∈ ws, IsWord w) : words (joined [' '] ws) = ws := by
  by_cases hne : ws = []
  · rw [hne]
    rfl
  · rw [words, pieces_joined (by decide) hne fun w hw => (h w hw).2, List.filter_eq_self.2]
    intro w hw
    simpa using (h w hw).1

theorem collapsed_collapsed (t : Text) : collapsed (collapsed t) = collapsed t := by
  unfold collapsed
  rw [words_joined fun w hw => isWord_of_mem_words hw]

end Text

namespace Title

theorem normalize_normalize (raw : Text) : normalize (normalize raw) = normalize raw := by
  have hfree : (normalize raw).filter (fun c => !isQuote c) = normalize raw := by
    refine List.filter_eq_self.2 fun c hc => ?_
    rcases mem_normalize hc with rfl | ⟨-, hq⟩
    · rfl
    · simp [hq]
  rw [normalize, hfree, normalize, Text.collapsed_collapsed]

/-- The title is in its normal form and not empty. -/
structure Clean (t : Text) : Prop where
  named : t ≠ []
  normal : normalize t = t

instance : DecidablePred Clean := fun t =>
  decidable_of_iff (t ≠ [] ∧ normalize t = t) ⟨fun h => ⟨h.1, h.2⟩, fun h => ⟨h.named, h.normal⟩⟩

theorem clean_normalize {raw : Text} (h : normalize raw ≠ []) : Clean (normalize raw) := ⟨h, normalize_normalize raw⟩

theorem clean_of_mem_ofAll {raws : List Text} {t : Text} (h : t ∈ ofAll raws) : Clean t := by
  obtain ⟨hmem, hne⟩ := List.mem_filter.1 h
  obtain ⟨raw, -, rfl⟩ := List.mem_map.1 hmem
  exact clean_normalize (by simpa using hne)

theorem clean_of_mem_plainIn {text t : Text} (h : t ∈ plainIn text) : Clean t := by
  obtain ⟨hmem, hne⟩ := List.mem_filter.1 h
  obtain ⟨fragment, -, rfl⟩ := List.mem_map.1 hmem
  have hnamed : withoutFiller fragment ≠ [] := by simpa using hne
  exact clean_normalize hnamed

theorem ofAll_of_named {ts : List Text} (h : ∀ t ∈ ts, normalize t ≠ []) : ofAll ts = ts.map normalize := by
  refine List.filter_eq_self.2 fun title htitle => ?_
  obtain ⟨t, ht, rfl⟩ := List.mem_map.1 htitle
  simpa using h t ht

/-- Clean titles are what they are read as. -/
theorem ofAll_of_clean {ts : List Text} (h : ∀ t ∈ ts, Clean t) : ofAll ts = ts := by
  have hnormal : ts.map normalize = ts := by
    rw [List.map_congr_left fun t ht => (h t ht).normal, List.map_id']
  have hnamed : ∀ t ∈ ts, normalize t ≠ [] := by
    intro t ht
    rw [(h t ht).normal]
    exact (h t ht).named
  rw [ofAll_of_named hnamed, hnormal]

end Title

namespace Clause

theorem clean_of_mem_verbTitles {window t : Text} (h : t ∈ verbTitles window) : Title.Clean t := by
  rcases List.mem_append.1 ((sublist_distinctBy Text.lowercase _).subset h) with h | h
  · exact Title.clean_of_mem_ofAll h
  · exact Title.clean_of_mem_plainIn h

theorem clean_of_mem_statusTitles {window t : Text} (h : t ∈ statusTitles window) : Title.Clean t := by
  have hread := (sublist_distinctBy Text.lowercase _).subset h
  split at hread
  · exact Title.clean_of_mem_plainIn hread
  · exact Title.clean_of_mem_ofAll hread

theorem clean_of_mem_verbActions {verb stop : Pattern} {write : Text → Action} {clause : Text} {a : Action}
    (h : a ∈ verbActions verb stop write clause) : ∃ t, Title.Clean t ∧ a = write t := by
  unfold verbActions at h
  cases hw : verbWindow? verb stop clause with
  | none => simp [hw] at h
  | some window =>
    simp only [hw, Option.map_some, Option.getD_some] at h
    obtain ⟨t, ht, rfl⟩ := List.mem_map.1 h
    exact ⟨t, clean_of_mem_verbTitles ht, rfl⟩

/-- **Every action of a clause** writes a clean title, in the way of clauses of its kind. -/
theorem exists_writes {clause : Text} {a : Action} (h : a ∈ actions clause) :
    ∃ write t, (kind clause).Writes write ∧ Title.Clean t ∧ a = write t := by
  unfold actions at h
  cases hk : kind clause with
  | nothing => simp [hk] at h
  | add =>
    rw [hk] at h
    obtain ⟨t, ht, rfl⟩ : ∃ t, Title.Clean t ∧ a = .add t := clean_of_mem_verbActions h
    exact ⟨_, t, .add, ht, rfl⟩
  | remove =>
    rw [hk] at h
    obtain ⟨t, ht, rfl⟩ : ∃ t, Title.Clean t ∧ a = .remove t := clean_of_mem_verbActions h
    exact ⟨_, t, .remove, ht, rfl⟩
  | quotedTitles =>
    simp only [hk] at h
    obtain ⟨t, ht, rfl⟩ := List.mem_map.1 h
    exact ⟨_, t, .quotedTitles, Title.clean_of_mem_ofAll ht, rfl⟩
  | statusChange =>
    simp only [hk] at h
    cases hw : statusWindow? clause with
    | none => simp [hw] at h
    | some found =>
      obtain ⟨window, word⟩ := found
      simp only [hw, Option.map_some, Option.getD_some] at h
      obtain ⟨t, ht, rfl⟩ := List.mem_map.1 h
      exact ⟨_, t, .statusChange (Status.ofWord word), clean_of_mem_statusTitles ht, rfl⟩

end Clause

theorem ClauseKind.Writes.title {k : ClauseKind} {write : Text → Action} (h : k.Writes write) (t : Text) :
    (write t).title = t := by cases h <;> rfl

/-- **Every title of a plan is clean.** -/
theorem Plan.clean_of_mem_ofText {instruction : Text} {a : Action} (h : a ∈ Plan.ofText instruction) :
    Title.Clean a.title := by
  obtain ⟨clause, -, ha⟩ := List.mem_flatMap.1 h
  obtain ⟨write, t, hwrites, hclean, rfl⟩ := Clause.exists_writes ha
  rw [hwrites.title]
  exact hclean

end WatchList
