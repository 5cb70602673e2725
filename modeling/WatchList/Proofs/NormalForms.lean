import WatchList.Proofs.Spacing
/-!
# The normal form of a title

What `Title.normalize` makes of a text can be said without saying how it is made (`Title.NormalForm`): no quotes; no
blanks but single spaces strictly between other characters; all characters that are neither quotes nor blanks, in order;
and two of them apart exactly if the text has a blank between them.  A text has one normal form and no other
(`Title.NormalForm.unique`), and quotes in a text make no difference to it (`Title.Requoted.normalize_eq`).

Words one space apart are read from left to right as the trimmed text with one space for each run of blanks
(`Text.collapsed_eq_squeezed`).
-/
namespace WatchList

/-- Neither a quote nor a blank: the normal form of a title keeps it. -/
def Title.isKept (c : Char) : Bool := !isQuote c && !isBlank c

open Title (isKept)

theorem isKept_of_blank {c : Char} (h : isBlank c = true) : isKept c = false := by simp [isKept, h]

namespace Text

/-! ## Runs of blanks -/

/-- The text with one space for each run of blanks; `pending` says that it continues such a run. -/
def squeezed (pending : Bool) : Text → Text
  | [] => if pending then [' '] else []
  | c :: t =>
    if isBlank c then squeezed true t
    else (if pending then [' '] else []) ++ c :: squeezed false t

theorem squeezed_append {c : Char} (hc : isBlank c = false) (u v : Text) (pending : Bool) :
    squeezed pending (u ++ c :: v) = squeezed pending u ++ c :: squeezed false v := by
  induction u generalizing pending with
  | nil => simp [squeezed, hc]
  | cons d u ih => by_cases hd : isBlank d = true <;> simp [squeezed, hd, ih]

theorem filter_squeezed (t : Text) (pending : Bool) : (squeezed pending t).filter isKept = t.filter isKept := by
  induction t generalizing pending with
  | nil => cases pending <;> decide
  | cons c t ih =>
    have hspace : isKept ' ' = false := by decide
    by_cases hc : isBlank c = true
    · simp [squeezed, hc, isKept_of_blank hc, ih]
    · cases pending <;> by_cases hkept : isKept c = true <;> simp [squeezed, hc, hspace, hkept, ih]

/-- There is a space for the run that is continued, or for the blanks of the text. -/
theorem space_mem_squeezed (t : Text) (pending : Bool) :
    ' ' ∈ squeezed pending t ↔ pending = true ∨ ∃ b ∈ t, isBlank b = true := by
  induction t generalizing pending with
  | nil => cases pending <;> simp [squeezed]
  | cons c t ih =>
    by_cases hc : isBlank c = true
    · simp [squeezed, hc, ih]
    · have hne : ' ' ≠ c := by rintro rfl; exact hc (by decide)
      cases pending <;> simp [squeezed, hc, hne, ih]

/-! ## Words one space apart -/

section
variable {c d : Char} (hc : isBlank c = false) (hd : isBlank d = false) (t : Text)
include hc

include hd in
theorem collapsed_cons_cons : collapsed (c :: d :: t) = c :: collapsed (d :: t) := by
  obtain ⟨w, ws, -, hdt⟩ := pieces_cons hd t
  obtain ⟨w', ws', hdt', hcdt⟩ := pieces_cons hc (d :: t)
  rw [hdt] at hdt'
  obtain ⟨rfl, rfl⟩ := List.cons.inj hdt'
  unfold collapsed words
  rw [hcdt, hdt, List.filter_cons_of_pos rfl, List.filter_cons_of_pos rfl]
  cases ws.filter fun w => !w.isEmpty <;> rfl

theorem trimRight_cons : trimRight (c :: t) = c :: trimRight t := trimRight_append hc [] t

end

theorem trimRight_blank {b : Char} (hb : isBlank b = true) (t : Text) :
    trimRight (b :: t) = if trimRight t = [] then [] else b :: trimRight t := by
  unfold trimRight
  rw [List.reverse_cons, List.dropWhile_append]
  by_cases h : t.reverse.dropWhile isBlank = [] <;> simp [h, hb]

theorem trimRight_eq_nil_iff (t : Text) : trimRight t = [] ↔ ∀ c ∈ t, isBlank c = true := by
  unfold trimRight
  rw [List.reverse_eq_nil_iff, dropWhile_blank_eq_nil_iff]
  simp

theorem collapsed_cons_blank {b c : Char} (hc : isBlank c = false) (hb : isBlank b = true) (t : Text) :
    collapsed (c :: b :: t) = if trimRight t = [] then [c] else c :: ' ' :: collapsed t := by
  have hword : words [c] = [[c]] := by simp [words, pieces, hc]
  have hwords : words (c :: b :: t) = [c] :: words t := by
    rw [← List.singleton_append, words_append hb, hword, List.singleton_append]
  unfold collapsed
  rw [hwords]
  split
  · rename_i hblank
    rw [words_of_blank ((trimRight_eq_nil_iff t).1 hblank)]
    rfl
  · rename_i hblank
    cases hw : words t with
    | nil => exact absurd ((trimRight_eq_nil_iff t).2 (collapsed_eq_nil_iff.1 (by rw [collapsed, hw]; rfl))) hblank
    | cons w ws => rfl

/-- Behind a character that is not blank, and behind blanks that are. -/
theorem collapsed_behind (t : Text) :
    (∀ c, isBlank c = false → collapsed (c :: t) = c :: squeezed false (trimRight t)) ∧
      (trimRight t ≠ [] → squeezed true (trimRight t) = ' ' :: collapsed t) := by
  induction t with
  | nil =>
    refine ⟨fun c hc => ?_, fun h => absurd rfl h⟩
    simp [collapsed, words, pieces, hc, joined, trimRight, squeezed]
  | cons d t ih =>
    obtain ⟨hcons, hblanks⟩ := ih
    by_cases hd : isBlank d = true
    · have hskip : collapsed (d :: t) = collapsed t := by
        rw [collapsed, ← List.nil_append (d :: t), words_append hd]
        rfl
      by_cases hnil : trimRight t = []
      · refine ⟨fun c hc => ?_, fun h => absurd (by rw [trimRight_blank hd, if_pos hnil]) h⟩
        rw [collapsed_cons_blank hc hd, trimRight_blank hd, if_pos hnil, if_pos hnil]
        rfl
      · have hsqueezed : ∀ pending, squeezed pending (trimRight (d :: t)) = ' ' :: collapsed t := by
          intro pending
          rw [trimRight_blank hd, if_neg hnil, squeezed, if_pos hd, hblanks hnil]
        refine ⟨fun c hc => ?_, fun _ => ?_⟩
        · rw [collapsed_cons_blank hc hd, if_neg hnil, hsqueezed]
        · rw [hsqueezed, hskip]
    · have hd : isBlank d = false := by simpa using hd
      have hrest : ∀ pending, squeezed pending (trimRight (d :: t)) =
          (if pending then [' '] else []) ++ collapsed (d :: t) := by
        intro pending
        rw [trimRight_cons hd, squeezed, if_neg (by simp [hd]), hcons d hd]
      refine ⟨fun c hc => ?_, fun _ => hrest true⟩
      rw [collapsed_cons_cons hc hd, hrest]
      rfl

/-- **Words one space apart**: the trimmed text with one space for each run of blanks. -/
theorem collapsed_eq_squeezed (t : Text) : collapsed t = squeezed false t.trim := by
  rw [← collapsed_trim]
  cases h : t.trim with
  | nil => rfl
  | cons c s =>
    have hleft : trimLeft (c :: s) = c :: s := by rw [← h, trimLeft_trim]
    have hc : isBlank c = false := isBlank_head_trimLeft hleft
    have hright : trimRight s = s := by
      have htrim : trim (c :: s) = c :: s := by rw [← h, trim_trim]
      rw [trim, hleft, trimRight_cons hc] at htrim
      exact (List.cons.inj htrim).2
    rw [(collapsed_behind s).1 c hc, hright, squeezed, if_neg (by simp [hc])]
    rfl

theorem IsWord.exists_first {w : Text} (hw : IsWord w) (ws : List Text) :
    ∃ d ∈ (joined [' '] (w :: ws)).head?, isBlank d = false := by
  obtain ⟨d, w, rfl⟩ := List.exists_cons_of_ne_nil hw.1
  refine ⟨d, ?_, hw.2 d List.mem_cons_self⟩
  cases ws <;> rfl

theorem IsWord.exists_last {w : Text} (hw : IsWord w) : ∃ c ∈ w.getLast?, isBlank c = false :=
  ⟨w.getLast hw.1, List.getLast?_eq_some_getLast hw.1, hw.2 _ (List.getLast_mem hw.1)⟩

/-- **A blank among words one space apart** is a space, strictly between what is not blank. -/
theorem spaced_joined : ∀ {ws : List Text}, (∀ w ∈ ws, IsWord w) → ∀ {u v : Text} {b : Char},
    joined [' '] ws = u ++ b :: v → isBlank b = true →
      b = ' ' ∧ (∃ c ∈ u.getLast?, isBlank c = false) ∧ ∃ d ∈ v.head?, isBlank d = false
  | [], _, u, v, b, h, _ => absurd h.symm (by simp [joined])
  | [w], hws, u, v, b, h, hb => by
    have hmem : b ∈ w := by
      rw [joined] at h
      simp [h]
    rw [(hws w List.mem_cons_self).2 b hmem] at hb
    cases hb
  | w :: w' :: ws, hws, u, v, b, h, hb => by
    obtain ⟨hw, htail⟩ := List.forall_mem_cons.1 hws
    have hnot : b ∉ w := fun hmem => by
      rw [hw.2 b hmem] at hb
      cases hb
    have h : w ++ [' '] ++ joined [' '] (w' :: ws) = u ++ b :: v := h
    rw [List.append_assoc, List.singleton_append] at h
    obtain ⟨s, rfl, hs⟩ | ⟨s, rfl, hs⟩ := List.append_eq_append_iff.1 h
    · cases s with
      | nil =>
        -- the space behind the first word
        obtain ⟨rfl, rfl⟩ := List.cons.inj hs
        rw [List.append_nil]
        exact ⟨rfl, hw.exists_last, (htail w' List.mem_cons_self).exists_first ws⟩
      | cons x s =>
        obtain ⟨-, hrest⟩ := List.cons.inj hs
        obtain ⟨hspace, ⟨c, hc, hcb⟩, hnext⟩ := spaced_joined htail hrest hb
        refine ⟨hspace, ⟨c, ?_, hcb⟩, hnext⟩
        rw [List.getLast?_append, List.getLast?_cons, Option.mem_def.1 hc]
        rfl
    · cases s with
      | nil =>
        obtain ⟨rfl, rfl⟩ := List.cons.inj hs
        rw [List.append_nil] at hw
        exact ⟨rfl, hw.exists_last, (htail w' List.mem_cons_self).exists_first ws⟩
      | cons x s =>
        obtain ⟨rfl, -⟩ := List.cons.inj hs
        exact absurd (by simp) hnot

end Text

namespace Title

open Text (squeezed collapsed)

/-! ## The normal form -/

/-- `n` is a normal form of the text. -/
structure NormalForm (raw n : Text) : Prop where
  unquoted : ∀ c ∈ n, isQuote c = false
  /-- Each blank is a space, strictly between two characters that are not blank. -/
  spaced : ∀ u b v, n = u ++ b :: v → isBlank b = true →
    b = ' ' ∧ (∃ c ∈ u.getLast?, isBlank c = false) ∧ ∃ d ∈ v.head?, isBlank d = false
  kept : n.filter isKept = raw.filter isKept
  /-- Two characters that are kept are apart exactly if the text has a blank between them. -/
  parted : ∀ u c m d v, raw = u ++ c :: (m ++ d :: v) → isKept c = true → isKept d = true →
    ∃ u' m' v', n = u' ++ c :: (m' ++ d :: v') ∧ u'.filter isKept = u.filter isKept ∧
      m'.filter isKept = m.filter isKept ∧ (' ' ∈ m' ↔ ∃ b ∈ m, isBlank b = true)

theorem normalize_eq_squeezed (raw : Text) :
    normalize raw = squeezed false (Text.trim (raw.filter fun c => !isQuote c)) := by
  rw [normalize, Text.collapsed_eq_squeezed]

theorem filter_trimLeft (t : Text) : (Text.trimLeft t).filter isKept = t.filter isKept := by
  unfold Text.trimLeft
  induction t with
  | nil => rfl
  | cons c t ih => by_cases hc : isBlank c = true <;> simp [hc, ih, isKept_of_blank]

theorem filter_trimRight (t : Text) : (Text.trimRight t).filter isKept = t.filter isKept := by
  unfold Text.trimRight
  rw [List.filter_reverse, ← Text.trimLeft, filter_trimLeft, List.filter_reverse, List.reverse_reverse]

theorem filter_unquoted (t : Text) : (t.filter fun c => !isQuote c).filter isKept = t.filter isKept := by
  rw [List.filter_filter]
  apply List.filter_congr
  intro c _
  cases hq : isQuote c <;> simp [isKept, hq]

theorem kept_normalize (raw : Text) : (normalize raw).filter isKept = raw.filter isKept := by
  rw [normalize_eq_squeezed, Text.filter_squeezed, Text.trim, filter_trimRight, filter_trimLeft, filter_unquoted]

/-- Around two characters that are kept a text is squeezed apart. -/
theorem parted_normalize {u m v : Text} {c d : Char} (hc : isKept c = true) (hd : isKept d = true) :
    ∃ u' m' v', normalize (u ++ c :: (m ++ d :: v)) = u' ++ c :: (m' ++ d :: v') ∧
      u'.filter isKept = u.filter isKept ∧ m'.filter isKept = m.filter isKept ∧
      (' ' ∈ m' ↔ ∃ b ∈ m, isBlank b = true) := by
  have hsplit : ∀ {e : Char}, isKept e = true → isQuote e = false ∧ isBlank e = false := fun h => by
    simpa [isKept] using h
  obtain ⟨hcq, hcb⟩ := hsplit hc
  obtain ⟨hdq, hdb⟩ := hsplit hd
  let unquoted (t : Text) : Text := t.filter fun c => !isQuote c
  have hraw : unquoted (u ++ c :: (m ++ d :: v)) = unquoted u ++ c :: (unquoted m ++ d :: unquoted v) := by
    simp [unquoted, hcq, hdq]
  have htrim : Text.trim (unquoted u ++ c :: (unquoted m ++ d :: unquoted v)) =
      Text.trimLeft (unquoted u) ++ c :: (unquoted m ++ d :: Text.trimRight (unquoted v)) := by
    rw [Text.trim, Text.trimLeft_append hcb, Text.trimRight_append hcb, Text.trimRight_append hdb]
  refine ⟨squeezed false (Text.trimLeft (unquoted u)), squeezed false (unquoted m),
    squeezed false (Text.trimRight (unquoted v)), ?_, ?_, ?_, ?_⟩
  · rw [normalize_eq_squeezed, ← Text.squeezed_append hdb, ← Text.squeezed_append hcb, ← htrim, ← hraw]
  · rw [Text.filter_squeezed, filter_trimLeft, filter_unquoted]
  · rw [Text.filter_squeezed, filter_unquoted]
  · rw [Text.space_mem_squeezed]
    constructor
    · rintro (h | ⟨b, hb, hblank⟩)
      · cases h
      · exact ⟨b, (List.mem_filter.1 hb).1, hblank⟩
    · rintro ⟨b, hb, hblank⟩
      have hquote : isQuote b = false := Text.free_of_blank (t := [b]) (by simp [hblank]) b List.mem_cons_self
      exact .inr ⟨b, List.mem_filter.2 ⟨hb, by simp [hquote]⟩, hblank⟩

theorem normalForm_normalize (raw : Text) : NormalForm raw (normalize raw) where
  unquoted := free_of_normal (normalize_normalize raw)
  spaced _ _ _ h hb := Text.spaced_joined (fun _ => Text.isWord_of_mem_words) h hb
  kept := kept_normalize raw
  parted u c m d v h hc hd := by
    subst h
    exact parted_normalize hc hd

/-! ## There is one -/

/-- A character that is kept is found by what is kept before it. -/
theorem eq_of_kept_before {u u' v v' : Text} {c c' : Char} (hc : isKept c = true) (hc' : isKept c' = true)
    (h : u ++ c :: v = u' ++ c' :: v') (hkept : u.filter isKept = u'.filter isKept) : u = u' ∧ v = v' := by
  have hlength := congrArg List.length hkept
  obtain ⟨s, rfl, hs⟩ | ⟨s, rfl, hs⟩ := List.append_eq_append_iff.1 h
  · cases s with
    | nil => exact ⟨(List.append_nil u).symm, (List.cons.inj hs).2⟩
    | cons x s =>
      obtain ⟨rfl, -⟩ := List.cons.inj hs
      simp [List.filter_append, hc] at hlength
  · cases s with
    | nil => exact ⟨List.append_nil u', (List.cons.inj hs).2.symm⟩
    | cons x s =>
      obtain ⟨rfl, -⟩ := List.cons.inj hs
      simp [List.filter_append, hc'] at hlength

namespace NormalForm

variable {raw n n' : Text}

/-- Where one normal form has a blank, no normal form of the same text has a character that is kept. -/
theorem apart (hn : NormalForm raw n) (hn' : NormalForm raw n') {p x y : Text} {b d : Char} (hb : isBlank b = true)
    (hd : isBlank d = false) (hx : n = p ++ b :: x) (hy : n' = p ++ d :: y) : False := by
  obtain ⟨rfl, ⟨c, hlast, hc⟩, ⟨e, hfirst, he⟩⟩ := hn.spaced p b x hx hb
  obtain ⟨p, rfl⟩ := List.getLast?_eq_some_iff.1 hlast
  obtain ⟨x, rfl⟩ := List.head?_eq_some_iff.1 hfirst
  have hkeeps : ∀ {m : Text} {c : Char}, (∀ c ∈ m, isQuote c = false) → c ∈ m → isBlank c = false → isKept c = true :=
    fun hm hmem hblank => by simp [isKept, hm _ hmem, hblank]
  have hc : isKept c = true := hkeeps hn.unquoted (by simp [hx]) hc
  have he : isKept e = true := hkeeps hn.unquoted (by simp [hx]) he
  have hd : isKept d = true := hkeeps hn'.unquoted (by simp [hy]) hd
  have hspace : [' '].filter isKept = [] := by decide
  have hx : n = p ++ c :: ([' '] ++ e :: x) := by simpa using hx
  have hy : n' = p ++ c :: ([] ++ d :: y) := by simpa using hy
  -- behind the last character that both have, the same one is kept next
  have hkept : raw.filter isKept = p.filter isKept ++ c :: e :: x.filter isKept := by
    rw [← hn.kept, hx, List.filter_append, List.filter_cons_of_pos hc, List.filter_append, hspace,
      List.filter_cons_of_pos he, List.nil_append]
  have hkept' : raw.filter isKept = p.filter isKept ++ c :: d :: y.filter isKept := by
    rw [← hn'.kept, hy, List.filter_append, List.filter_cons_of_pos hc, List.nil_append, List.filter_cons_of_pos hd]
  obtain ⟨rfl, -⟩ : e = d ∧ x.filter isKept = y.filter isKept := by simpa using hkept.symm.trans hkept'
  obtain ⟨u, rest, hraw, hu, hrest⟩ := List.filter_eq_append_iff.1 hkept
  obtain ⟨w, rest, rfl, hw, -, hrest⟩ := List.filter_eq_cons_iff.1 hrest
  obtain ⟨m, v, rfl, hm, -, -⟩ := List.filter_eq_cons_iff.1 hrest
  have hbefore : (u ++ w).filter isKept = p.filter isKept := by
    rw [List.filter_append, hu, List.filter_eq_nil_iff.2 hw, List.append_nil]
  rw [← List.append_assoc] at hraw
  -- the text has a blank between the two, and has none
  have hblank : ∃ b ∈ m, isBlank b = true := by
    obtain ⟨u', m', v', h, hu', hm', hiff⟩ := hn.parted _ c m e v hraw hc he
    obtain ⟨rfl, hrest⟩ := eq_of_kept_before hc hc (hx.symm.trans h) (by rw [hu', hbefore])
    obtain ⟨rfl, -⟩ := eq_of_kept_before he he hrest (by rw [hspace, hm', List.filter_eq_nil_iff.2 hm])
    exact hiff.1 List.mem_cons_self
  obtain ⟨u', m', v', h, hu', hm', hiff⟩ := hn'.parted _ c m e v hraw hc he
  obtain ⟨rfl, hrest⟩ := eq_of_kept_before hc hc (hy.symm.trans h) (by rw [hu', hbefore])
  obtain ⟨rfl, -⟩ := eq_of_kept_before he he hrest (by rw [hm', List.filter_eq_nil_iff.2 hm]; rfl)
  exact absurd (hiff.2 hblank) List.not_mem_nil

/-- Behind a common beginning, nothing is left of a normal form where nothing is left of another. -/
theorem nil_of_nil (hn : NormalForm raw n) (hn' : NormalForm raw n') {y : Text} (hy : n' = n ++ y) : y = [] := by
  cases y with
  | nil => rfl
  | cons d y =>
    have hnone : (d :: y).filter isKept = [] := by
      have hkept := hn.kept.trans hn'.kept.symm
      rw [hy, List.filter_append] at hkept
      exact List.append_right_eq_self.1 hkept.symm
    have hkept : ∀ c ∈ d :: y, isKept c = false := fun c hc => by
      simpa using List.filter_eq_nil_iff.1 hnone c hc
    have hblank : ∀ c ∈ d :: y, isBlank c = true := fun c hc => by
      simpa [isKept, hn'.unquoted c (by rw [hy]; exact List.mem_append_right n hc)] using hkept c hc
    obtain ⟨-, -, ⟨e, hfirst, he⟩⟩ := hn'.spaced n d y hy (hblank d List.mem_cons_self)
    obtain ⟨y, rfl⟩ := List.head?_eq_some_iff.1 hfirst
    rw [hblank e (by simp)] at he
    cases he

/-- **A text has one normal form.** -/
theorem unique (hn : NormalForm raw n) (hn' : NormalForm raw n') : n = n' := by
  have hrest : ∀ x y p, n = p ++ x → n' = p ++ y → x = y := by
    intro x
    induction x with
    | nil =>
      intro y p hx hy
      rw [List.append_nil] at hx
      rw [← hx] at hy
      exact (nil_of_nil hn hn' hy).symm
    | cons a x ih =>
      intro y p hx hy
      cases y with
      | nil =>
        rw [List.append_nil] at hy
        rw [← hy] at hx
        exact nil_of_nil hn' hn hx
      | cons b y =>
        have hab : a = b := by
          by_cases ha : isBlank a = true <;> by_cases hb : isBlank b = true
          · rw [(hn.spaced p a x hx ha).1, (hn'.spaced p b y hy hb).1]
          · exact (apart hn hn' ha (by simpa using hb) hx hy).elim
          · exact (apart hn' hn hb (by simpa using ha) hy hx).elim
          · have hkept := hn.kept.trans hn'.kept.symm
            have hka : isKept a = true := by simp [isKept, ha, hn.unquoted a (by simp [hx])]
            have hkb : isKept b = true := by simp [isKept, hb, hn'.unquoted b (by simp [hy])]
            rw [hx, hy, List.filter_append, List.filter_append, List.append_cancel_left_eq, List.filter_cons_of_pos hka,
              List.filter_cons_of_pos hkb] at hkept
            exact (List.cons.inj hkept).1
        subst hab
        rw [ih y (p ++ [a]) (by simpa using hx) (by simpa using hy)]
  exact hrest n n' [] rfl rfl

end NormalForm

/-! ## Quotes -/

/-- The second text is the first with some of its quotes deleted and others inserted. -/
inductive Requoted : Text → Text → Prop
  | nil : Requoted [] []
  | same (c : Char) {s t : Text} (rest : Requoted s t) : Requoted (c :: s) (c :: t)
  | deleted {q : Char} (hq : isQuote q = true) {s t : Text} (rest : Requoted s t) : Requoted (q :: s) t
  | inserted {q : Char} (hq : isQuote q = true) {s t : Text} (rest : Requoted s t) : Requoted s (q :: t)

theorem Requoted.normalize_eq {s t : Text} (h : Requoted s t) : normalize t = normalize s := by
  have hrest : s.filter (fun c => !isQuote c) = t.filter fun c => !isQuote c := by
    induction h with
    | nil => rfl
    | same c _ ih => rw [List.filter_cons, List.filter_cons, ih]
    | deleted hq _ ih => rw [List.filter_cons_of_neg (by simp [hq]), ih]
    | inserted hq _ ih => rw [List.filter_cons_of_neg (by simp [hq]), ih]
  rw [normalize, normalize, hrest]

/-- **What `normalize` computes is the normal form**: the one text without quotes, with no blanks but single spaces
between other characters, that keeps what is neither a quote nor a blank and has a space exactly where the text has
blanks.  It is its own normal form, quotes make no difference to it, and it is empty exactly if there is nothing but
quotes and blanks. -/
theorem normalize_computes_normal_form (raw : Text) :
    (∀ n, NormalForm raw n ↔ n = normalize raw) ∧ normalize (normalize raw) = normalize raw ∧
      (∀ raw', Requoted raw raw' → normalize raw' = normalize raw) ∧
      (normalize raw = [] ↔ ∀ c ∈ raw, isQuote c = true ∨ isBlank c = true) := by
  refine ⟨fun n => ⟨fun h => ?_, ?_⟩, normalize_normalize raw, fun raw' h => h.normalize_eq, normalize_eq_nil_iff⟩
  · exact h.unique (normalForm_normalize raw)
  · rintro rfl
    exact normalForm_normalize raw

example : normalize "\t« Le \n “Grand„ \u00A0Badaud‟ »".toList = "Le Grand Badaud".toList := by decide

end Title
end WatchList
