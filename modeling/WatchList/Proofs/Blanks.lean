import WatchList.Proofs.Barrier
import WatchList.Proofs.Quotation
/-!
# Blanks at the ends

Trimming takes blanks off the two ends of a text and nothing else (`exists_trim`).  It stops at what is not blank: at a
quote, for one, so that it leaves a quotation as it is (`trim_between`) and a closed text closed (`closed_trimLeft`).
-/
namespace WatchList
namespace Text

/-! ## Trimming -/

theorem trimLeft_append {c : Char} (hc : isBlank c = false) (x t : Text) :
    trimLeft (x ++ c :: t) = trimLeft x ++ c :: t := by
  rw [trimLeft, trimLeft, List.dropWhile_append]
  split
  · rename_i h
    rw [List.isEmpty_iff.1 h, List.dropWhile_cons, if_neg (Bool.eq_false_iff.1 hc)]
    rfl
  · rfl

theorem trimRight_append {c : Char} (hc : isBlank c = false) (t y : Text) :
    trimRight (t ++ c :: y) = t ++ c :: trimRight y := by
  have h := trimLeft_append hc y.reverse t.reverse
  unfold trimLeft at h
  have hrev : (t ++ c :: y).reverse = y.reverse ++ c :: t.reverse := by simp
  rw [trimRight, trimRight, hrev, h, List.reverse_append, List.reverse_cons, List.reverse_reverse, List.append_assoc]
  rfl

theorem trim_cons_blank {b : Char} (hb : isBlank b = true) (t : Text) : trim (b :: t) = trim t := by
  rw [trim, trimLeft, List.dropWhile_cons_of_pos hb]
  rfl

theorem trim_append_blank {b : Char} (hb : isBlank b = true) (t : Text) : trim (t ++ [b]) = trim t := by
  rw [trim, trim, trimLeft, trimLeft, List.dropWhile_append]
  split
  · rename_i h
    rw [List.isEmpty_iff.1 h, List.dropWhile_cons_of_pos hb]
    rfl
  · rw [trimRight, List.reverse_append, List.reverse_singleton, List.singleton_append, List.dropWhile_cons_of_pos hb]
    rfl

/-- A word at the beginning stays when a text is trimmed. -/
theorem trim_append_word {w : Text} (hne : w ≠ []) (hw : ∀ c ∈ w, isBlank c = false) (t : Text) :
    trim (w ++ t) = w ++ trimRight t := by
  have hleft : trimLeft (w ++ t) = w ++ t := by
    obtain ⟨c, s, rfl⟩ := List.exists_cons_of_ne_nil hne
    rw [List.cons_append, trimLeft, List.dropWhile_cons, if_neg (Bool.eq_false_iff.1 (hw c List.mem_cons_self))]
  obtain ⟨s, c, rfl⟩ := (List.eq_nil_or_concat w).resolve_left hne
  rw [trim, hleft, List.concat_eq_append, List.append_assoc, List.append_assoc]
  exact trimRight_append (hw c (by simp)) s t

section
variable {q q' : Char} {inner : Text} (hQ : (Quote.Part.quoted q inner q').Sound) (x y : Text)
include hQ

theorem trimRight_between :
    trimRight ((Quote.Part.quoted q inner q').between x y) = (Quote.Part.quoted q inner q').between x (trimRight y) := by
  have hshape : ∀ t : Text, (Quote.Part.quoted q inner q').between x t = (x ++ q :: inner) ++ q' :: t := by
    intro t
    simp [Quote.Part.between, Quote.Part.text]
  rw [hshape, hshape, trimRight_append (Pattern.isBlank_quote hQ.2.1)]

/-- **Trimming a text with a quotation in it** trims what stands before it and what stands behind it. -/
theorem trim_between :
    trim ((Quote.Part.quoted q inner q').between x y) =
      (Quote.Part.quoted q inner q').between (trimLeft x) (trimRight y) := by
  have hleft : trimLeft ((Quote.Part.quoted q inner q').between x y) =
      (Quote.Part.quoted q inner q').between (trimLeft x) y := by
    have hshape : ∀ s : Text, (Quote.Part.quoted q inner q').between s y = s ++ q :: (inner ++ q' :: y) := by
      intro s
      simp [Quote.Part.between, Quote.Part.text]
    rw [hshape, hshape, trimLeft_append (Pattern.isBlank_quote hQ.1)]
  rw [trim, hleft, trimRight_between hQ]

end

theorem dropWhile_blank_eq_nil_iff (t : Text) : t.dropWhile isBlank = [] ↔ ∀ c ∈ t, isBlank c = true := by
  constructor
  · intro h
    have hrun := List.takeWhile_append_dropWhile (p := isBlank) (l := t)
    rw [h, List.append_nil] at hrun
    rw [← hrun]
    exact List.all_eq_true.1 List.all_takeWhile
  · intro h
    rw [← List.append_nil t, List.dropWhile_append_of_pos h]
    rfl

/-- Nothing is left of a text exactly if it is blank throughout. -/
theorem trim_eq_nil_iff (t : Text) : trim t = [] ↔ ∀ c ∈ t, isBlank c = true := by
  rw [← dropWhile_blank_eq_nil_iff]
  constructor
  · intro h
    unfold trim trimRight at h
    rw [List.reverse_eq_nil_iff, dropWhile_blank_eq_nil_iff] at h
    apply Decidable.byContradiction
    intro hnil
    -- the first character that is left is not blank
    have hhead := List.head_dropWhile_not isBlank hnil
    rw [h _ (List.mem_reverse.2 (List.head_mem hnil))] at hhead
    cases hhead
  · intro h
    rw [trim, trimLeft, h]
    rfl

theorem trimRight_isPrefix (t : Text) : trimRight t <+: t := by
  have h : t.reverse.dropWhile isBlank <:+ t.reverse := List.dropWhile_suffix isBlank
  rwa [← List.reverse_prefix, List.reverse_reverse] at h

theorem trim_infix (t : Text) : trim t <:+: t := by
  have hleft : trimLeft t <:+ t := List.dropWhile_suffix isBlank
  exact (trimRight_isPrefix (trimLeft t)).isInfix.trans hleft.isInfix

/-- **Trimming takes off blanks** at the two ends and nothing else. -/
theorem exists_trim (t : Text) :
    ∃ u v, t = u ++ (trim t ++ v) ∧ (∀ c ∈ u, isBlank c = true) ∧ ∀ c ∈ v, isBlank c = true := by
  have hright : ∀ s : Text, trimRight s ++ (s.reverse.takeWhile isBlank).reverse = s := by
    intro s
    rw [trimRight, ← List.reverse_append, List.takeWhile_append_dropWhile, List.reverse_reverse]
  refine ⟨t.takeWhile isBlank, ((trimLeft t).reverse.takeWhile isBlank).reverse, ?_, List.all_eq_true.1 List.all_takeWhile,
    fun c hc => List.all_eq_true.1 List.all_takeWhile c (List.mem_reverse.1 hc)⟩
  rw [trim, hright, trimLeft, List.takeWhile_append_dropWhile]

theorem isBlank_head_trimLeft {t s : Text} {c : Char} (h : trimLeft t = c :: s) : isBlank c = false := by
  have hhead := List.head?_dropWhile_not isBlank t
  rw [← trimLeft, h] at hhead
  simpa using hhead

theorem trimLeft_trimLeft (t : Text) : trimLeft (trimLeft t) = trimLeft t := by
  cases h : trimLeft t with
  | nil => rfl
  | cons c s => rw [trimLeft, List.dropWhile_cons, if_neg (Bool.eq_false_iff.1 (isBlank_head_trimLeft h))]

theorem trimLeft_trim (t : Text) : trimLeft (trim t) = trim t := by
  unfold trim
  cases h : trimLeft t with
  | nil => rfl
  | cons c s =>
    have hc := isBlank_head_trimLeft h
    have hkeeps := trimRight_append hc [] s
    rw [List.nil_append, List.nil_append] at hkeeps
    rw [hkeeps, trimLeft, List.dropWhile_cons, if_neg (Bool.eq_false_iff.1 hc)]

theorem trim_trim (t : Text) : trim (trim t) = trim t := by
  rw [trim, trimLeft_trim, trim, trimRight, trimRight, List.reverse_reverse]
  exact congrArg List.reverse (trimLeft_trimLeft _)

theorem trim_eq_self {t : Text} (hhead : t.head?.any isBlank = false) (hlast : t.getLast?.any isBlank = false) :
    trim t = t := by
  have hstays : ∀ s : Text, s.head?.any isBlank = false → s.dropWhile isBlank = s := by
    intro s hs
    cases s with
    | nil => rfl
    | cons c s =>
      have hc : isBlank c = false := hs
      rw [List.dropWhile_cons, if_neg (Bool.eq_false_iff.1 hc)]
  rw [trim, trimLeft, hstays t hhead, trimRight, hstays t.reverse (by rwa [List.head?_reverse]), List.reverse_reverse]

/-! ## Blanks, quotes and words -/

theorem free_of_blank {t : Text} (h : ∀ c ∈ t, isBlank c = true) : ∀ c ∈ t, isQuote c = false := by
  intro c hc
  cases hq : isQuote c with
  | false => rfl
  | true =>
    have hblank := h c hc
    rw [Pattern.isBlank_quote hq] at hblank
    cases hblank

/-- What holds of one blank character after the other holds of every blank. -/
theorem forall_blank (f : Char → Bool) (h : (blankRanges.all fun r => (List.range (r.2 - r.1 + 1)).all fun i =>
    f (Char.ofNat (r.1 + i))) = true) {c : Char} (hc : isBlank c = true) : f c = true := by
  obtain ⟨r, hr, hin⟩ := List.any_eq_true.1 hc
  rw [Bool.and_eq_true, decide_eq_true_eq, decide_eq_true_eq] at hin
  have hf := List.all_eq_true.1 (List.all_eq_true.1 h r hr) (c.toNat - r.1) (List.mem_range.2 (by omega))
  rwa [show r.1 + (c.toNat - r.1) = c.toNat by omega, Char.ofNat_toNat] at hf

theorem isWordChar_blank {c : Char} (h : isBlank c = true) : isWordChar c = false := by
  simpa using forall_blank (fun c => !isWordChar c) (by decide +kernel) h

theorem closed_trimLeft {t : Text} (h : Quote.Closed t) : Quote.Closed (trimLeft t) := by
  rw [← List.takeWhile_append_dropWhile (p := isBlank) (l := t)] at h
  exact h.of_append (Quote.closed_of_free (free_of_blank (List.all_eq_true.1 List.all_takeWhile)))

end Text
end WatchList
