import WatchList.Proofs.Blanks
import WatchList.Proofs.CleanTitles
import WatchList.Proofs.Words
/-!
# Words and the blanks around them

The words of a text do not depend on what blanks stand between them, before them or behind them (`Text.words_append`,
`Text.words_trim`), and what is not blank is in one of them (`Text.mem_collapsed_of_mem`).  So a text names no title only
if it is made of quotes and blanks (`Title.normalize_eq_nil_iff`).  Folding letters makes no character blank and none not
blank (`isBlank_foldLetter`).
-/
namespace WatchList

theorem isBlank_foldLetter (c : Char) : isBlank (foldLetter c) = isBlank c :=
  eq_foldLetter isBlank (by decide +kernel) (by decide) (by decide) c

theorem foldLetter_foldLetter (c : Char) : foldLetter (foldLetter c) = foldLetter c :=
  eq_foldLetter foldLetter (by decide +kernel) (by decide) (by decide) c

namespace Text

/-! ## Words -/

theorem words_append {b : Char} (hb : isBlank b = true) (s t : Text) : words (s ++ b :: t) = words s ++ words t := by
  rw [words, pieces_append hb, List.filter_append]
  rfl

theorem words_blank_append {u : Text} (hu : ∀ c ∈ u, isBlank c = true) (t : Text) : words (u ++ t) = words t := by
  induction u with
  | nil => rfl
  | cons b u ih =>
    obtain ⟨hb, hu⟩ := List.forall_mem_cons.1 hu
    have hcons := words_append hb [] (u ++ t)
    rw [List.nil_append] at hcons
    rw [List.cons_append, hcons, ih hu]
    rfl

theorem words_of_blank {t : Text} (h : ∀ c ∈ t, isBlank c = true) : words t = [] := by
  have hnil := words_blank_append h []
  rwa [List.append_nil] at hnil

theorem words_append_blank (t : Text) {v : Text} (hv : ∀ c ∈ v, isBlank c = true) : words (t ++ v) = words t := by
  cases v with
  | nil => rw [List.append_nil]
  | cons b v =>
    obtain ⟨hb, hv⟩ := List.forall_mem_cons.1 hv
    rw [words_append hb, words_of_blank hv, List.append_nil]

theorem words_trim (t : Text) : words t.trim = words t := by
  obtain ⟨u, v, ht, hu, hv⟩ := exists_trim t
  conv => rhs; rw [ht]
  rw [words_blank_append hu, words_append_blank _ hv]

theorem collapsed_trim (t : Text) : collapsed t.trim = collapsed t := by rw [collapsed, words_trim, collapsed]

/-! ## Characters -/

theorem mem_trim {t : Text} {c : Char} (hc : c ∈ t) (hblank : isBlank c = false) : c ∈ t.trim := by
  obtain ⟨u, v, ht, hu, hv⟩ := exists_trim t
  rw [ht] at hc
  rcases List.mem_append.1 hc with hc | hc
  · rw [hu c hc] at hblank
    cases hblank
  · rcases List.mem_append.1 hc with hc | hc
    · exact hc
    · rw [hv c hc] at hblank
      cases hblank

theorem mem_of_mem_trim {t : Text} {c : Char} (hc : c ∈ t.trim) : c ∈ t := by
  have hwithin := trim_infix t
  exact hwithin.subset hc

theorem mem_joined_of_mem {sep : Text} {ws : List Text} {w : Text} (hw : w ∈ ws) {c : Char} (hc : c ∈ w) :
    c ∈ joined sep ws := by
  fun_induction joined sep ws with
  | case1 => cases hw
  | case2 v =>
    rw [List.mem_singleton.1 hw] at hc
    exact hc
  | case3 v vs _ ih =>
    rcases List.mem_cons.1 hw with rfl | hw
    · exact List.mem_append_left _ (List.mem_append_left _ hc)
    · exact List.mem_append_right _ (ih hw)

theorem exists_piece_of_mem {cut : Char → Bool} {t : Text} {c : Char} (hc : c ∈ t) (hcut : cut c = false) :
    ∃ w ∈ pieces cut t, c ∈ w := by
  induction t with
  | nil => cases hc
  | cons d t ih =>
    obtain ⟨v, vs, hv⟩ := List.exists_cons_of_ne_nil (pieces_ne_nil cut t)
    rw [hv] at ih
    rw [pieces, hv]
    cases hd : cut d with
    | true =>
      rcases List.mem_cons.1 hc with rfl | hc
      · rw [hd] at hcut
        cases hcut
      · obtain ⟨w, hw, hcw⟩ := ih hc
        exact ⟨w, List.mem_cons_of_mem [] hw, hcw⟩
    | false =>
      rcases List.mem_cons.1 hc with rfl | hc
      · exact ⟨c :: v, List.mem_cons_self, List.mem_cons_self⟩
      · obtain ⟨w, hw, hcw⟩ := ih hc
        rcases List.mem_cons.1 hw with rfl | hw
        · exact ⟨d :: w, List.mem_cons_self, List.mem_cons_of_mem d hcw⟩
        · exact ⟨w, List.mem_cons_of_mem _ hw, hcw⟩

/-- What is not blank stays when the words of a text are put one space apart. -/
theorem mem_collapsed_of_mem {t : Text} {c : Char} (hc : c ∈ t) (hblank : isBlank c = false) : c ∈ collapsed t := by
  obtain ⟨w, hw, hcw⟩ := exists_piece_of_mem hc hblank
  refine mem_joined_of_mem (List.mem_filter.2 ⟨hw, ?_⟩) hcw
  rw [Bool.not_eq_true', List.isEmpty_eq_false_iff]
  exact List.ne_nil_of_mem hcw

/-- A text without words is made of blanks. -/
theorem collapsed_eq_nil_iff {t : Text} : collapsed t = [] ↔ ∀ c ∈ t, isBlank c = true := by
  constructor
  · intro h c hc
    cases hblank : isBlank c with
    | true => rfl
    | false =>
      have hmem := mem_collapsed_of_mem hc hblank
      rw [h] at hmem
      cases hmem
  · intro h
    rw [collapsed, words_of_blank h]
    rfl

theorem trim_map {f : Char → Char} (hf : ∀ c, isBlank (f c) = isBlank c) (t : Text) : trim (t.map f) = t.trim.map f := by
  have hleft : ∀ s : Text, (s.map f).dropWhile isBlank = (s.dropWhile isBlank).map f := by
    intro s
    rw [List.dropWhile_map]
    congr 2
    funext c
    exact hf c
  rw [trim, trimLeft, trimRight, hleft, ← List.map_reverse, hleft, ← List.map_reverse]
  rfl

theorem pieces_map {α β : Type} {f : α → β} {cut : β → Bool} {cut' : α → Bool} (h : ∀ a, cut (f a) = cut' a) (t : List α) :
    pieces cut (t.map f) = (pieces cut' t).map (List.map f) := by
  induction t with
  | nil => rfl
  | cons a t ih =>
    rw [List.map_cons, pieces, pieces, h, ih]
    cases cut' a with
    | true => rfl
    | false => cases pieces cut' t <;> rfl

theorem words_map {f : Char → Char} (hf : ∀ c, isBlank (f c) = isBlank c) (t : Text) :
    words (t.map f) = (words t).map (List.map f) := by
  rw [words, pieces_map hf, List.filter_map]
  congr 2
  funext w
  cases w <;> rfl

end Text

/-- A text names no title if there is nothing in it but quotes and blanks. -/
theorem Title.normalize_eq_nil_iff {raw : Text} :
    normalize raw = [] ↔ ∀ c ∈ raw, isQuote c = true ∨ isBlank c = true := by
  rw [normalize, Text.collapsed_eq_nil_iff]
  refine forall_congr' fun c => ?_
  rw [List.mem_filter]
  cases isQuote c <;> simp

end WatchList
