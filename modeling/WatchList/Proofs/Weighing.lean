import WatchList.Proofs.Steering
import WatchList.Proofs.Words
/-!
# What a title weighs

Reading a title drops and puts in blanks, quotes and commas.  The **weight** of a text is the number of its other
characters.  A normal form weighs what the text does (`Title.weight_normalize`), and a title that is read from a text
weighs no more than the text (`Clause.weight_of_mem_verbTitles`, `Clause.weight_of_mem_statusTitles`).  So a title that
is read from one part of a clause is not the title that a heavier part names.
-/
namespace WatchList

/-- Neither a blank nor a quote nor a comma. -/
def weighs (c : Char) : Bool := !isBlank c && !isQuote c && c != ','

theorem foldLetter_of_not_weighs {c : Char} (h : weighs c = false) : foldLetter c = c := by
  have hlatin : ∀ n < 256, weighs (Char.ofNat n) = false → foldLetter (Char.ofNat n) = Char.ofNat n := by
    decide +kernel
  rcases Nat.lt_or_ge c.toNat 256 with hlt | hge
  · have hn := hlatin c.toNat hlt
    rw [Char.ofNat_toNat] at hn
    exact hn h
  · refine foldLetter_of_ge hge ?_ ?_
    · rintro rfl
      exact absurd h (by decide)
    · rintro rfl
      exact absurd h (by decide)

namespace Text

def weight (t : Text) : Nat := t.countP weighs

theorem weight_append (s t : Text) : (s ++ t).weight = s.weight + t.weight := List.countP_append

theorem weight_le_of_infix {s t : Text} (h : s <:+: t) : s.weight ≤ t.weight := h.sublist.countP_le

theorem weight_pieces {cut : Char → Bool} (h : ∀ c, cut c = true → weighs c = false) (t : Text) :
    weight (pieces cut t).flatten = t.weight := by
  induction t with
  | nil => rfl
  | cons c t ih =>
    unfold pieces
    split
    · rename_i hc
      rw [List.flatten_cons, List.nil_append, ih, weight, weight, List.countP_cons, h c hc]
      rfl
    · split
      · exact absurd ‹_› (pieces_ne_nil cut t)
      · rename_i w ws hw
        rw [hw] at ih
        rw [List.flatten_cons, List.cons_append, ← List.flatten_cons, weight, weight, List.countP_cons,
          List.countP_cons]
        exact congrArg (· + _) ih

theorem weight_of_mem_pieces {cut : Char → Bool} (h : ∀ c, cut c = true → weighs c = false) {t w : Text}
    (hw : w ∈ pieces cut t) : w.weight ≤ t.weight := by
  rw [← weight_pieces h t]
  exact weight_le_of_infix (List.infix_of_mem_flatten hw)

theorem weight_joined {sep : Text} (h : sep.weight = 0) (ws : List Text) :
    (joined sep ws).weight = weight ws.flatten := by
  fun_induction joined sep ws with
  | case1 => rfl
  | case2 w => rw [List.flatten_singleton]
  | case3 w ws _ ih => rw [weight_append, weight_append, h, ih, List.flatten_cons, weight_append, Nat.add_zero]

theorem weight_collapsed (t : Text) : (collapsed t).weight = t.weight := by
  have hblank : ∀ c, isBlank c = true → weighs c = false := fun c hc => by simp [weighs, hc]
  rw [collapsed, weight_joined (by decide), words, List.flatten_filter_not_isEmpty, weight_pieces hblank]

end Text

/-- A verb weighs something, in any casing. -/
theorem weight_verb {s : Text} (h : s.map foldLetter ∈ Vocabulary.verbs) : 0 < s.weight := by
  have hweigh : (Vocabulary.verbs.all fun w => !w.isEmpty && w.all weighs) = true := by decide
  have hw := List.all_eq_true.1 hweigh _ h
  cases s with
  | nil => cases hw
  | cons c s =>
    have hletter : weighs (foldLetter c) = true := by
      rw [Bool.and_eq_true] at hw
      exact List.all_eq_true.1 hw.2 _ (by simp)
    refine List.countP_pos_iff.2 ⟨c, List.mem_cons_self, ?_⟩
    cases hc : weighs c with
    | true => rfl
    | false => rw [foldLetter_of_not_weighs hc, hc] at hletter; cases hletter

/-- A text of no weight in the place of a hit is no heavier than the hit. -/
theorem Token.weight_filled {r : Text} (hr : r.weight = 0) (ts : List (Token Char)) :
    Text.weight (ts.flatMap (filled r)) ≤ Text.weight (ts.flatMap items) := by
  induction ts with
  | nil => exact Nat.le_refl _
  | cons tok ts ih =>
    rw [List.flatMap_cons, List.flatMap_cons, Text.weight_append, Text.weight_append]
    refine Nat.add_le_add ?_ ih
    cases tok with
    | gap c => exact Nat.le_refl _
    | hit c cs =>
      rw [filled, hr]
      exact Nat.zero_le _

namespace Pattern

variable (p : Pattern) {r : Text} (hr : r.weight = 0) (t : Text)
include hr

/-- A text of no weight in the place of hits makes a text no heavier. -/
theorem weight_replaceAll : (p.replaceAll r t).weight ≤ t.weight := by
  have hfilled := Token.weight_filled hr (p.tokens t)
  rwa [tokens, items_scan] at hfilled

/-- It makes a text lighter, if what is hit weighs something. -/
theorem weight_replaceAll_lt {c : Char} {cs : Text} (h : Token.hit c cs ∈ p.tokens t) (hc : weighs c = true) :
    (p.replaceAll r t).weight < t.weight := by
  obtain ⟨us, vs, hsplit⟩ := List.append_of_mem h
  have hitems : (us ++ .hit c cs :: vs).flatMap Token.items = t := by
    rw [← hsplit]
    exact items_scan p id none t
  have hweight : 0 < Text.weight (c :: cs) := List.countP_pos_iff.2 ⟨c, List.mem_cons_self, hc⟩
  have hus := Token.weight_filled hr us
  have hvs := Token.weight_filled hr vs
  rw [replaceAll_eq, hsplit, ← hitems, List.flatMap_append, List.flatMap_append, List.flatMap_cons, List.flatMap_cons,
    Text.weight_append, Text.weight_append, Text.weight_append, Text.weight_append, Token.filled, Token.items, hr]
  omega

end Pattern

namespace Quote

theorem weight_withoutQuoted (t : Text) : (withoutQuoted t).weight ≤ t.weight := by
  conv => rhs; rw [← text_parts t]
  unfold withoutQuoted
  induction parts t with
  | nil => exact Nat.le_refl _
  | cons p ps ih =>
    rw [List.flatMap_cons, List.flatMap_cons, Text.weight_append, Text.weight_append]
    refine Nat.add_le_add ?_ ih
    cases p with
    | plain c => exact Nat.le_refl _
    | quoted q inner q' => exact Nat.zero_le _

theorem infix_of_mem_inners {t inner : Text} (h : inner ∈ inners t) : inner <:+: t := by
  obtain ⟨p, hp, hinner⟩ := List.mem_filterMap.1 h
  cases p with
  | plain c => cases hinner
  | quoted q i q' =>
    obtain rfl := Option.some.inj hinner
    have htext : (Part.quoted q i q').text <:+: (parts t).flatMap Part.text :=
      List.infix_of_mem_flatten (List.mem_map_of_mem hp)
    rw [text_parts] at htext
    exact List.IsInfix.trans ⟨[q], [q'], by simp [Part.text]⟩ htext

end Quote

namespace Title

theorem weight_normalize (raw : Text) : (normalize raw).weight = raw.weight := by
  have hquote : ∀ c, (weighs c && !isQuote c) = weighs c := by
    intro c
    cases hq : isQuote c <;> simp [weighs, hq]
  rw [normalize, Text.weight_collapsed, Text.weight, List.countP_filter]
  simp only [hquote]
  rfl

theorem weight_withoutFiller (t : Text) : (withoutFiller t).weight ≤ t.weight := by
  rw [withoutFiller, weight_normalize]
  exact Nat.le_trans (Pattern.weight_replaceAll _ (by decide) _) (Pattern.weight_replaceAll _ (by decide) _)

theorem weight_of_mem_quotedIn {t title : Text} (h : title ∈ quotedIn t) : title.weight ≤ t.weight := by
  obtain ⟨inner, hinner, rfl⟩ := List.mem_map.1 (List.mem_filter.1 h).1
  rw [weight_normalize]
  exact Text.weight_le_of_infix (Quote.infix_of_mem_inners hinner)

theorem weight_of_mem_plainIn {t title : Text} (h : title ∈ plainIn t) : title.weight ≤ t.weight := by
  obtain ⟨piece, hpiece, rfl⟩ := List.mem_map.1 (List.mem_filter.1 h).1
  have hseparator : ∀ c, isSeparator c = true → weighs c = false := by
    intro c hc
    rcases Bool.or_eq_true_iff.1 hc with hc | hc
    · rw [beq_iff_eq.1 hc]
      decide
    · rw [beq_iff_eq.1 hc]
      decide
  refine Nat.le_trans (weight_withoutFiller piece) ?_
  exact Nat.le_trans (Text.weight_of_mem_pieces hseparator hpiece) (Pattern.weight_replaceAll _ (by decide) t)

end Title

namespace Clause

theorem weight_of_mem_verbTitles {window title : Text} (h : title ∈ verbTitles window) :
    title.weight ≤ window.weight := by
  rcases List.mem_append.1 ((sublist_distinctBy Text.lowercase _).subset h) with h | h
  · exact Title.weight_of_mem_quotedIn h
  · exact Nat.le_trans (Title.weight_of_mem_plainIn h) (Quote.weight_withoutQuoted window)

theorem weight_of_mem_statusTitles {window title : Text} (h : title ∈ statusTitles window) :
    title.weight ≤ window.weight := by
  have hread := (sublist_distinctBy Text.lowercase _).subset h
  split at hread
  · exact Title.weight_of_mem_plainIn hread
  · exact Title.weight_of_mem_quotedIn hread

/-! ## Windows -/

theorem infix_before {p : Pattern} {v f : Found} (h : p.findAfter v = some f) : plain f.before <:+: plain v.after := by
  rw [← Pattern.items_find h, plain_append, plain_append, List.append_assoc]
  exact (List.prefix_append _ _).isInfix

theorem infix_windowAfter (stop : Pattern) (v : Found) : windowAfter stop v <:+: plain v.after := by
  unfold windowAfter
  split
  · exact infix_before ‹_›
  · exact List.infix_refl _

theorem infix_statusAfter {anywhere : Option Text} {v : Found} {window word : Text}
    (h : statusAfter anywhere v = some (window, word)) : window <:+: plain v.after := by
  unfold statusAfter at h
  split at h
  · obtain ⟨_, -, heq⟩ := Option.map_eq_some_iff.1 h
    cases heq
    exact infix_before ‹_›
  · split at h
    · cases h
      exact infix_before ‹_›
    · obtain ⟨_, -, heq⟩ := Option.map_eq_some_iff.1 h
      cases heq
      exact List.infix_refl _

/-- An action of a verb has its title from a window behind the verb. -/
theorem exists_window_of_verb {verb stop : Pattern} {write : Text → Action} {clause : Text} {a : Action}
    (h : a ∈ verbActions verb stop write clause) :
    ∃ v window title, verb.find none (Quote.letters clause) = some v ∧ window <:+: plain v.after ∧
      title ∈ verbTitles window ∧ a = write title := by
  rw [verbActions, verbWindow?_eq] at h
  cases hv : verb.find none (Quote.letters clause) with
  | none => simp [hv] at h
  | some v =>
    simp only [hv, Option.map_some, Option.getD_some] at h
    obtain ⟨title, htitle, rfl⟩ := List.mem_map.1 h
    exact ⟨v, _, title, rfl, infix_windowAfter stop v, htitle, rfl⟩

/-- An action of a verb takes a title from what stands behind the verb. -/
theorem exists_of_mem_verbActions {verb stop : Pattern} {write : Text → Action} {clause : Text} {a : Action}
    (h : a ∈ verbActions verb stop write clause) :
    ∃ v title, verb.find none (Quote.letters clause) = some v ∧ title.weight ≤ (plain v.after).weight ∧
      a = write title := by
  obtain ⟨v, window, title, hv, hwindow, htitle, rfl⟩ := exists_window_of_verb h
  exact ⟨v, title, hv, Nat.le_trans (weight_of_mem_verbTitles htitle) (Text.weight_le_of_infix hwindow), rfl⟩

end Clause
end WatchList
