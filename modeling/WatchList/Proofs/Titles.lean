import WatchList.Title
import WatchList.Proofs.Quotation
/-!
# Titles in a text

The normal form of a text is made of its characters that are no quotes and of spaces (`mem_normalize`), so a title that
is its own normal form can stand in a quotation.  Quoted titles are read quotation by quotation (`quotedIn_between`).
-/
namespace WatchList

open Quote (Closed Part)

namespace Text

theorem mem_of_mem_pieces {α : Type} {cut : α → Bool} {t w : List α} (hw : w ∈ pieces cut t) {c : α} (hc : c ∈ w) :
    c ∈ t := by
  induction t generalizing w with
  | nil =>
    obtain rfl := List.mem_singleton.1 hw
    exact hc
  | cons d t ih =>
    unfold pieces at hw
    split at hw
    · rcases List.mem_cons.1 hw with rfl | hw
      · cases hc
      · exact List.mem_cons_of_mem d (ih hw hc)
    · split at hw
      · obtain rfl := List.mem_singleton.1 hw
        rw [List.mem_singleton.1 hc]
        exact List.mem_cons_self
      · rename_i v vs hv
        rcases List.mem_cons.1 hw with rfl | hw
        · rcases List.mem_cons.1 hc with rfl | hc
          · exact List.mem_cons_self
          · exact List.mem_cons_of_mem d (ih (by rw [hv]; exact List.mem_cons_self) hc)
        · exact List.mem_cons_of_mem d (ih (by rw [hv]; exact List.mem_cons_of_mem v hw) hc)

theorem mem_joined {sep : Text} {ws : List Text} {c : Char} (h : c ∈ joined sep ws) : c ∈ sep ∨ ∃ w ∈ ws, c ∈ w := by
  fun_induction joined sep ws with
  | case1 => cases h
  | case2 w => exact .inr ⟨w, List.mem_singleton_self w, h⟩
  | case3 w ws _ ih =>
    rcases List.mem_append.1 h with h | h
    · rcases List.mem_append.1 h with h | h
      · exact .inr ⟨w, List.mem_cons_self, h⟩
      · exact .inl h
    · rcases ih h with h | ⟨v, hv, hc⟩
      · exact .inl h
      · exact .inr ⟨v, List.mem_cons_of_mem w hv, hc⟩

theorem mem_collapsed {t : Text} {c : Char} (h : c ∈ collapsed t) : c = ' ' ∨ c ∈ t := by
  rcases mem_joined h with h | ⟨w, hw, hc⟩
  · exact .inl (List.mem_singleton.1 h)
  · exact .inr (mem_of_mem_pieces (List.mem_filter.1 hw).1 hc)

end Text

namespace Title

theorem mem_normalize {raw : Text} {c : Char} (h : c ∈ normalize raw) : c = ' ' ∨ (c ∈ raw ∧ isQuote c = false) := by
  rcases Text.mem_collapsed h with rfl | h
  · exact .inl rfl
  · obtain ⟨hmem, hquote⟩ := List.mem_filter.1 h
    exact .inr ⟨hmem, by simpa using hquote⟩

theorem free_of_normal {t : Text} (h : normalize t = t) : ∀ c ∈ t, isQuote c = false := by
  intro c hc
  rw [← h] at hc
  rcases mem_normalize hc with rfl | ⟨-, hquote⟩
  · rfl
  · exact hquote

theorem ofAll_append (as bs : List Text) : ofAll (as ++ bs) = ofAll as ++ ofAll bs := by
  rw [ofAll, List.map_append, List.filter_append]
  rfl

theorem ofAll_cons {a : Text} (h : normalize a ≠ []) (as : List Text) : ofAll (a :: as) = normalize a :: ofAll as := by
  rw [ofAll, List.map_cons, List.filter_cons_of_pos (by simpa using h)]
  rfl

theorem quotedIn_between {x : Text} (hx : Closed x) {q q' : Char} {inner : Text} (hQ : (Part.quoted q inner q').Sound)
    (hne : normalize inner ≠ []) (y : Text) :
    quotedIn ((Part.quoted q inner q').between x y) = quotedIn x ++ normalize inner :: quotedIn y := by
  rw [quotedIn, Quote.inners_between hx hQ, ofAll_append, ofAll_cons hne]
  rfl

end Title

end WatchList
