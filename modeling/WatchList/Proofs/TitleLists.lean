import WatchList.Proofs.Extraction
import WatchList.Proofs.Turns
/-!
# Lists of titles, cut and put together

A list of titles is cut at its separators before anything else is looked at, so at a separator it falls into two lists,
also where a quotation crosses it (`Title.ofList_append`).  What its pieces are read as is clean, holds no separator and is
read as itself.  Blanks around a list make no difference, not even line ends.  So clean titles without commas are read back
whatever separators and blanks stand between them (`Title.ofList_enumerated`).
-/
namespace WatchList
namespace Title

/-- What may stand between two titles of a list: a separator, with blanks around it. -/
structure Gap where
  before : Text
  separator : Char
  after : Text
  blank_before : ∀ c ∈ before, isBlank c = true
  separates : separator = ',' ∨ separator = '\n'
  blank_after : ∀ c ∈ after, isBlank c = true

def Gap.text (g : Gap) : Text := g.before ++ g.separator :: g.after

/-- The titles as a list, `gap n` between two of them where `n` more follow the second. -/
def enumerated (gap : Nat → Gap) : List Text → Text
  | [] => []
  | [t] => t
  | t :: u :: ts => t ++ (gap ts.length).text ++ enumerated gap (u :: ts)

/-! ## Separators -/

theorem isSeparator_iff {c : Char} : isSeparator c = true ↔ c = ',' ∨ c = '\n' := by simp [isSeparator]

theorem ofList_nil : ofList [] = [] := rfl

/-- **At a separator a list falls into two lists.** -/
theorem ofList_append {c : Char} (hc : isSeparator c = true) (a b : Text) :
    ofList (a ++ c :: b) = ofList a ++ ofList b := by
  rw [ofList, Text.pieces_append hc, ofAll_append]
  rfl

theorem ofList_of_free {t : Text} (hfree : ∀ c ∈ t, isSeparator c = false) : ofList t = ofAll [t] := by
  rw [ofList, Text.pieces_of_free hfree]

/-- A clean title holds no line end, as the only blank in it is the space. -/
theorem Clean.unseparated {t : Text} (h : Clean t) (hcomma : ',' ∉ t) : ∀ c ∈ t, isSeparator c = false := by
  intro c hc
  rw [Bool.eq_false_iff, ne_eq, isSeparator_iff]
  rintro (rfl | rfl)
  · exact hcomma hc
  · exact absurd (h.eq_space hc (by decide)) (by decide)

theorem ofList_of_clean {t : Text} (h : Clean t) (hfree : ∀ c ∈ t, isSeparator c = false) : ofList t = [t] := by
  rw [ofList_of_free hfree]
  exact ofAll_of_clean (List.forall_mem_singleton.2 h)

/-- **What a list is read as**: clean titles without separators, each of which is a list of its own. -/
theorem reads_itself {raw p : Text} (h : p ∈ ofList raw) :
    p ≠ [] ∧ ',' ∉ p ∧ '\n' ∉ p ∧ normalize p = p ∧ ofList p = [p] := by
  have hclean : Clean p := clean_of_mem_ofList h
  have hfree : ∀ c ∈ p, isSeparator c = false := by
    simpa [List.any_eq_false] using unseparated_of_mem_ofList h
  have hnot : ∀ c, isSeparator c = true → c ∉ p := by
    intro c hc hmem
    rw [hfree c hmem] at hc
    cases hc
  exact ⟨hclean.named, hnot ',' rfl, hnot '\n' rfl, hclean.normal, ofList_of_clean hclean hfree⟩

/-! ## Blanks -/

theorem normalize_cons_blank {b : Char} (hb : isBlank b = true) (t : Text) : normalize (b :: t) = normalize t := by
  cases hq : isQuote b with
  | true =>
    rw [Pattern.isBlank_quote hq] at hb
    cases hb
  | false =>
    have hskip := Text.words_append hb [] (t.filter fun c => !isQuote c)
    rw [List.nil_append] at hskip
    rw [normalize, List.filter_cons_of_pos (by simp [hq]), Text.collapsed, hskip]
    rfl

theorem normalize_append_blank {b : Char} (hb : isBlank b = true) (t : Text) : normalize (t ++ [b]) = normalize t := by
  cases hq : isQuote b with
  | true =>
    rw [Pattern.isBlank_quote hq] at hb
    cases hb
  | false =>
    rw [normalize, List.filter_append, List.filter_cons_of_pos (by simp [hq]), List.filter_nil, Text.collapsed,
      Text.words_append_blank _ (List.forall_mem_singleton.2 hb)]
    rfl

/-- A blank in front of a list is cut off, or goes to the first piece, where it is dropped. -/
theorem ofList_cons_blank {b : Char} (hb : isBlank b = true) (t : Text) : ofList (b :: t) = ofList t := by
  cases hsep : isSeparator b with
  | true => exact ofList_append hsep [] t
  | false =>
    obtain ⟨w, ws, ht, hbt⟩ := Text.pieces_cons hsep t
    rw [ofList, ofList, ofAll, ofAll, ht, hbt, List.map_cons, List.map_cons, normalize_cons_blank hb]

theorem ofList_append_blank {b : Char} (hb : isBlank b = true) (t : Text) : ofList (t ++ [b]) = ofList t := by
  cases hsep : isSeparator b with
  | true => rw [ofList_append hsep, ofList_nil, List.append_nil]
  | false =>
    obtain ⟨ws, w, ht, htb⟩ := Text.pieces_concat hsep t
    rw [ofList, ofList, ofAll, ofAll, ht, htb, List.map_append, List.map_append, List.map_singleton, List.map_singleton,
      normalize_append_blank hb]

theorem ofList_blanks_append {u : Text} (hu : ∀ c ∈ u, isBlank c = true) (t : Text) : ofList (u ++ t) = ofList t := by
  induction u with
  | nil => rfl
  | cons b u ih =>
    obtain ⟨hb, hu⟩ := List.forall_mem_cons.1 hu
    rw [List.cons_append, ofList_cons_blank hb, ih hu]

theorem ofList_append_blanks (t : Text) {v : Text} (hv : ∀ c ∈ v, isBlank c = true) : ofList (t ++ v) = ofList t := by
  induction v generalizing t with
  | nil => rw [List.append_nil]
  | cons b v ih =>
    obtain ⟨hb, hv⟩ := List.forall_mem_cons.1 hv
    rw [List.append_cons, ih (t ++ [b]) hv, ofList_append_blank hb]

/-! ## Gaps -/

/-- **At a gap a list falls into two lists**: its blanks belong to neither. -/
theorem ofList_append_gap (a : Text) (g : Gap) (b : Text) : ofList (a ++ g.text ++ b) = ofList a ++ ofList b := by
  have hshape : a ++ g.text ++ b = (a ++ g.before) ++ g.separator :: (g.after ++ b) := by simp [Gap.text]
  rw [hshape, ofList_append (isSeparator_iff.2 g.separates), ofList_append_blanks a g.blank_before,
    ofList_blanks_append g.blank_after]

theorem ofList_enumerated {gap : Nat → Gap} {ts : List Text} (h : ∀ t ∈ ts, Clean t ∧ ',' ∉ t) :
    ofList (enumerated gap ts) = ts := by
  induction ts with
  | nil => rfl
  | cons t ts ih =>
    obtain ⟨⟨hclean, hcomma⟩, hts⟩ := List.forall_mem_cons.1 h
    have hone : ofList t = [t] := ofList_of_clean hclean (hclean.unseparated hcomma)
    cases ts with
    | nil => exact hone
    | cons u ts => rw [enumerated, ofList_append_gap, hone, ih hts, List.singleton_append]

/-- **Lists of titles are cut and put together without loss.**  Two lists with a separator between are read as the one
and then the other, whatever the two are.  Every title that is read from a list is clean, holds no separator and is read as
itself.  And clean titles without commas are read back, in order, when they are put into a list with a comma or a line end
between two of them, and any blanks around it. -/
theorem ofList_cut_and_joined :
    (∀ sep ∈ [',', '\n'], ∀ a b : Text, ofList (a ++ sep :: b) = ofList a ++ ofList b) ∧
    (∀ raw : Text, ∀ p ∈ ofList raw, p ≠ [] ∧ ',' ∉ p ∧ '\n' ∉ p ∧ normalize p = p ∧ ofList p = [p]) ∧
    ∀ (gap : Nat → Gap) (ts : List Text), (∀ t ∈ ts, t ≠ [] ∧ normalize t = t ∧ ',' ∉ t) →
      ofList (enumerated gap ts) = ts := by
  refine ⟨fun sep hsep a b => ?_, fun raw p => reads_itself, fun gap ts h => ?_⟩
  · exact ofList_append (isSeparator_iff.2 (by simpa using hsep)) a b
  · exact ofList_enumerated fun t ht => ⟨⟨(h t ht).1, (h t ht).2.1⟩, (h t ht).2.2⟩

/-- A quotation crosses the separator, the gaps have line ends and a no-break space beside theirs, and titles hold filler. -/
theorem ofList_cut_and_joined_crossed :
    let gap : Nat → Gap := fun n =>
      if n = 0 then ⟨"\u00A0\n".toList, ',', "\n ".toList, List.all_eq_true.1 rfl, .inl rfl, List.all_eq_true.1 rfl⟩
      else ⟨"\t".toList, '\n', [], List.all_eq_true.1 rfl, .inr rfl, List.all_eq_true.1 rfl⟩
    let ts := ["My List".toList, "Heat and Dune".toList, "É".toList]
    '\n' ∈ [',', '\n'] ∧ ofList "Alien,, “Heat\n (1995)” ,".toList = ["Alien".toList, "Heat".toList, "(1995)".toList] ∧
      "(1995)".toList ∈ ofList " (1995)” ,".toList ∧ ofList "(1995)".toList = ["(1995)".toList] ∧
      (∀ t ∈ ts, t ≠ [] ∧ normalize t = t ∧ ',' ∉ t) ∧
      enumerated gap ts = "My List\t\nHeat and Dune\u00A0\n,\n É".toList ∧
      ofList "My List\t\nHeat and Dune\u00A0\n,\n É".toList = ts := by
  intro gap ts
  obtain ⟨hcut, hpiece, hjoin⟩ := ofList_cut_and_joined
  have hsep : '\n' ∈ [',', '\n'] := by decide
  have hmem : "(1995)".toList ∈ ofList " (1995)” ,".toList := by decide
  have hclean : ∀ t ∈ ts, t ≠ [] ∧ normalize t = t ∧ ',' ∉ t := by decide
  have htext : enumerated gap ts = "My List\t\nHeat and Dune\u00A0\n,\n É".toList := by decide
  refine ⟨hsep, ?_, hmem, (hpiece _ _ hmem).2.2.2.2, hclean, htext, ?_⟩
  · exact (hcut '\n' hsep "Alien,, “Heat".toList " (1995)” ,".toList).trans (by decide)
  · rw [← htext]
    exact hjoin gap ts hclean

end Title
end WatchList
