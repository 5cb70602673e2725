import WatchList.Proofs.Casing
import WatchList.Text.Fold
import WatchList.Text.Word
/-!
# Small letters, character by character

The small form of a character depends on its neighbours only if it is a sigma.  `Lowered s t` forgets the neighbours: `t`
is made of forms that the characters of `s` may take, in order.  So it goes with the parts of a text
(`Lowered.of_append`), which `Text.lowercase` itself does not.

* No edge of a word is lost but next to two letters (`Lowered.head_edge`, `Lowered.last_edge`).
* Letters that fold to Latin-1 still fold to the same (`Lowered.map_fold`).
-/
namespace WatchList

/-- The forms that a character may take in small letters: one, unless it is a sigma. -/
def smallForms (c : Char) : List Text :=
  if c = 'Σ' then [['σ'], ['ς']] else if c = 'İ' then [['i', '\u0307']] else [[smallLetter c]]

theorem smallForms_of_ne {c : Char} (h : c ≠ 'Σ') : ∃ w, smallForms c = [w] := by
  unfold smallForms
  rw [if_neg h]
  split
  · exact ⟨_, rfl⟩
  · exact ⟨_, rfl⟩

/-! ## Word edges -/

/-- The letters that are no word characters while their small forms are: what stands next to one is at the edge of a word
only until it is put in small letters. -/
def clingingLetters : List Char := ['\uA7D2', '\uA7D4']

/-- All letters of the run lie in one range of word characters. -/
def inWordRange (r : Nat × Nat × Nat × Int) : Bool :=
  wordBlocks.any fun b => b.1 ≤ r.1 && r.2.1 ≤ b.2.1 && b.2.2.any fun w => w.1 ≤ r.1 && r.2.1 ≤ w.2

theorem isWordChar_of_inWordRange {r : Nat × Nat × Nat × Int} (h : inWordRange r = true) {c : Char} (hc : 128 ≤ c.toNat)
    (hlo : r.1 ≤ c.toNat) (hhi : c.toNat ≤ r.2.1) : isWordChar c = true := by
  obtain ⟨b, hb, hr⟩ := List.any_eq_true.1 h
  rw [Bool.and_eq_true, Bool.and_eq_true, decide_eq_true_eq, decide_eq_true_eq] at hr
  obtain ⟨⟨hblo, hbhi⟩, hr⟩ := hr
  obtain ⟨w, hw, hr⟩ := List.any_eq_true.1 hr
  rw [Bool.and_eq_true, decide_eq_true_eq, decide_eq_true_eq] at hr
  have hrange : inRanges b.2.2 c = true :=
    List.any_eq_true.2 ⟨w, hw, by rw [Bool.and_eq_true, decide_eq_true_eq, decide_eq_true_eq]; omega⟩
  rw [isWordChar, if_neg (by omega)]
  refine List.any_eq_true.2 ⟨b, hb, ?_⟩
  rw [Bool.and_eq_true, Bool.and_eq_true, decide_eq_true_eq, decide_eq_true_eq]
  exact ⟨⟨by omega, by omega⟩, hrange⟩

/-- The runs that are not word characters throughout, letter by letter. -/
theorem runs_keep_edges : (smallLetterRuns.all fun r => inWordRange r ||
    (List.range (r.2.1 - r.1 + 1)).all fun i => isWordChar (Char.ofNat (r.1 + i)) ||
      clingingLetters.contains (Char.ofNat (r.1 + i)) || !isWordChar (smallLetter (Char.ofNat (r.1 + i)))) = true := by
  decide +kernel

/-- **Lower-casing makes no word character** of what is none, two letters aside. -/
theorem isWordChar_smallLetter {c : Char} (hc : isWordChar c = false) (hcling : c ∉ clingingLetters) :
    isWordChar (smallLetter c) = false := by
  rcases Nat.lt_or_ge c.toNat 128 with hascii | hwide
  · have hlower := eq_lowerAscii isWordChar (by decide +kernel) c
    rw [smallLetter, if_pos hascii, hlower, hc]
  · cases hrun : smallLetterRuns.find? fun r =>
        r.1 ≤ c.toNat && c.toNat ≤ r.2.1 && (c.toNat - r.1) % r.2.2.1 == 0 with
    | none => rwa [smallLetter, if_neg (by omega), hrun]
    | some r =>
      have hr := List.find?_some hrun
      rw [Bool.and_eq_true, Bool.and_eq_true, decide_eq_true_eq, decide_eq_true_eq] at hr
      obtain ⟨⟨hlo, hhi⟩, -⟩ := hr
      have hkeeps := List.all_eq_true.1 runs_keep_edges r (List.mem_of_find?_eq_some hrun)
      rcases Bool.or_eq_true_iff.1 hkeeps with hword | hletters
      · rw [isWordChar_of_inWordRange hword hwide hlo hhi] at hc
        cases hc
      · have hletter := List.all_eq_true.1 hletters (c.toNat - r.1) (List.mem_range.2 (by omega))
        rw [show r.1 + (c.toNat - r.1) = c.toNat by omega, Char.ofNat_toNat, hc,
          List.contains_eq_mem, decide_eq_false hcling] at hletter
        simpa using hletter

theorem smallForms_of_not_word {c : Char} (hc : isWordChar c = false) (hcling : c ∉ clingingLetters) :
    ∃ d, smallForms c = [[d]] ∧ isWordChar d = false := by
  refine ⟨smallLetter c, ?_, isWordChar_smallLetter hc hcling⟩
  have hsigma : c ≠ 'Σ' := by
    rintro rfl
    exact absurd hc (by decide +kernel)
  have hdotted : c ≠ 'İ' := by
    rintro rfl
    exact absurd hc (by decide +kernel)
  rw [smallForms, if_neg hsigma, if_neg hdotted]

/-! ## Folding -/

/-- Letters that fold to Latin-1 have the letter they fold to as their small form, unless they are a long s. -/
theorem smallForms_eq_of_latin {c : Char} (h : (foldLetter c).toNat < 256) (hlong : c ≠ 'ſ') :
    smallForms c = [[foldLetter c]] ∧ foldLetter (foldLetter c) = foldLetter c := by
  have hlatin : ∀ n < 256, smallForms (Char.ofNat n) = [[foldLetter (Char.ofNat n)]] ∧
      foldLetter (foldLetter (Char.ofNat n)) = foldLetter (Char.ofNat n) := by decide +kernel
  by_cases hkelvin : c = '\u212A'
  · rw [hkelvin]
    exact ⟨by decide +kernel, by decide⟩
  have hc : c.toNat < 256 := by
    refine Nat.lt_of_not_le fun hge => ?_
    rw [foldLetter_of_ge hge hlong hkelvin] at h
    omega
  have hn := hlatin c.toNat hc
  rwa [Char.ofNat_toNat] at hn

theorem smallForms_of_small {c : Char} (hsmall : foldLetter c = c) (h : c.toNat < 256) : smallForms c = [[c]] := by
  have hlong : c ≠ 'ſ' := by
    rintro rfl
    exact absurd h (by decide)
  have hform := (smallForms_eq_of_latin (by rwa [hsmall]) hlong).1
  rwa [hsmall] at hform

theorem smallForms_of_latin {c : Char} (h : (foldLetter c).toNat < 256) :
    ∃ d, smallForms c = [[d]] ∧ foldLetter d = foldLetter c := by
  by_cases hlong : c = 'ſ'
  · exact ⟨'ſ', by rw [hlong]; decide +kernel, by rw [hlong]⟩
  · exact ⟨foldLetter c, smallForms_eq_of_latin h hlong⟩

namespace Text

/-- `t` is made of forms that the characters of `s` may take in small letters, in order. -/
inductive Lowered : Text → Text → Prop where
  | nil : Lowered [] []
  | cons {c : Char} {w s t : Text} (hw : w ∈ smallForms c) (h : Lowered s t) : Lowered (c :: s) (w ++ t)

theorem lowered_lowerAfter (before t : Text) : Lowered t (lowerAfter before t) := by
  induction t generalizing before with
  | nil => exact .nil
  | cons c t ih =>
    refine .cons ?_ (ih _)
    unfold lowerBetween smallForms
    split
    · split <;> simp
    · split <;> exact List.mem_singleton_self _

theorem lowered_lowercase (t : Text) : Lowered t t.lowercase := lowered_lowerAfter [] t

namespace Lowered
variable {s t : Text}

theorem of_append {u v : Text} (h : Lowered (u ++ v) t) : ∃ u' v', t = u' ++ v' ∧ Lowered u u' ∧ Lowered v v' := by
  induction u generalizing t with
  | nil => exact ⟨[], t, rfl, .nil, h⟩
  | cons c u ih =>
    cases h with
    | cons hw h =>
      obtain ⟨u', v', rfl, hu, hv⟩ := ih h
      exact ⟨_ ++ u', v', (List.append_assoc _ _ _).symm, .cons hw hu, hv⟩

theorem of_cons {c d : Char} (h : Lowered (c :: s) t) (hd : smallForms c = [[d]]) : ∃ s', t = d :: s' ∧ Lowered s s' := by
  cases h with
  | cons hw h =>
    rw [hd, List.mem_singleton] at hw
    exact ⟨_, by rw [hw]; rfl, h⟩

theorem mem_of_mem (h : Lowered s t) {c d : Char} (hc : c ∈ s) (hd : smallForms c = [[d]]) : d ∈ t := by
  obtain ⟨u, v, rfl⟩ := List.append_of_mem hc
  obtain ⟨u', v', rfl, -, hv⟩ := h.of_append
  obtain ⟨v', rfl, -⟩ := hv.of_cons hd
  exact List.mem_append_right _ List.mem_cons_self

/-- A text without a sigma has one small form. -/
theorem unique (h : Lowered s t) (hs : 'Σ' ∉ s) {t' : Text} (h' : Lowered s t') : t' = t := by
  induction h generalizing t' with
  | nil =>
    cases h'
    rfl
  | cons hw h ih =>
    cases h' with
    | cons hw' h' =>
      rw [List.mem_cons, not_or] at hs
      obtain ⟨w, hforms⟩ := smallForms_of_ne (Ne.symm hs.1)
      rw [hforms, List.mem_singleton] at hw hw'
      rw [hw, hw', ih hs.2 h']

theorem head_edge (h : Lowered s t) (hs : ∀ c ∈ s, c ∉ clingingLetters) (he : touchesWord s.head? = false) :
    touchesWord t.head? = false := by
  cases h with
  | nil => rfl
  | @cons c w s t hw h =>
    obtain ⟨d, hforms, hd⟩ := smallForms_of_not_word he (hs c List.mem_cons_self)
    rw [hforms, List.mem_singleton] at hw
    rw [hw]
    exact hd

theorem last_edge (h : Lowered s t) (hs : ∀ c ∈ s, c ∉ clingingLetters) (he : touchesWord s.getLast? = false) :
    touchesWord t.getLast? = false := by
  rcases List.eq_nil_or_concat s with rfl | ⟨s, c, rfl⟩
  · cases h
    rfl
  · rw [List.concat_eq_append] at h hs he
    obtain ⟨s', t', rfl, -, hlast⟩ := h.of_append
    rw [List.getLast?_append] at he
    obtain ⟨d, hforms, hd⟩ := smallForms_of_not_word he (hs c (by simp))
    obtain ⟨r, rfl, hr⟩ := hlast.of_cons hforms
    cases hr
    rw [List.getLast?_append]
    exact hd

theorem map_fold (h : Lowered s t) (hs : ∀ c ∈ s, (foldLetter c).toNat < 256) :
    t.map foldLetter = s.map foldLetter := by
  induction h with
  | nil => rfl
  | @cons c w s t hw h ih =>
    obtain ⟨hc, hs⟩ := List.forall_mem_cons.1 hs
    obtain ⟨d, hforms, hd⟩ := smallForms_of_latin hc
    rw [hforms, List.mem_singleton] at hw
    rw [hw, List.map_append, ih hs, List.map_cons, List.map_nil, hd]
    rfl

end Lowered
end Text
end WatchList
