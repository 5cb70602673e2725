import WatchList.Proofs.Seams
import WatchList.Proofs.Spacing
/-!
# Strands

A **run** is a word as it stands: word characters with none next to them.  A **strand** is a sequence of runs with
nothing but blanks between them; whatever is neither a blank nor part of a word ends it (`Text.strands`).  What a text
says in phrases it says within its strands, and how its blanks are written makes no difference to them
(`Text.strands_collapsed`).

At a seam the strands of two texts run on into each other (`Text.strands_append`), so facts about strands are shown run by
run (`Text.run_induction`).
-/
namespace WatchList
namespace Text

/-! ## Runs -/

/-- One of the runs that a text can have. -/
def IsRun (w : Text) : Prop := w ≠ [] ∧ ∀ c ∈ w, isWordChar c = true

theorem IsRun.ends {w : Text} (h : IsRun w) : touchesWord w.head? = true ∧ touchesWord w.getLast? = true := by
  obtain ⟨hne, hw⟩ := h
  rw [List.head?_eq_some_head hne, List.getLast?_eq_some_getLast hne]
  exact ⟨hw _ (List.head_mem hne), hw _ (List.getLast_mem hne)⟩

/-- The word characters in front of a text, and what follows them. -/
theorem exists_front (t : Text) :
    ∃ s r, t = s ++ r ∧ (∀ c ∈ s, isWordChar c = true) ∧ touchesWord r.head? = false := by
  refine ⟨t.takeWhile isWordChar, t.dropWhile isWordChar, List.takeWhile_append_dropWhile.symm,
    List.all_eq_true.1 List.all_takeWhile, ?_⟩
  have hhead := List.head?_dropWhile_not isWordChar t
  cases h : (t.dropWhile isWordChar).head? with
  | none => rfl
  | some c => simpa [h, touchesWord] using hhead

/-- A text that begins with a word character begins with a run. -/
theorem exists_run_front {t : Text} (h : touchesWord t.head? = true) :
    ∃ w r, t = w ++ r ∧ IsRun w ∧ touchesWord r.head? = false := by
  obtain ⟨w, r, rfl, hw, hr⟩ := exists_front t
  refine ⟨w, r, rfl, ⟨?_, hw⟩, hr⟩
  rintro rfl
  rw [List.nil_append, hr] at h
  cases h

theorem front_unique {u v s t : Text} (hu : ∀ c ∈ u, isWordChar c = true) (hv : ∀ c ∈ v, isWordChar c = true)
    (hs : touchesWord s.head? = false) (ht : touchesWord t.head? = false) (h : u ++ s = v ++ t) : u = v ∧ s = t := by
  have hfront : ∀ {u s : Text}, (∀ c ∈ u, isWordChar c = true) → touchesWord s.head? = false →
      (u ++ s).takeWhile isWordChar = u := by
    intro u s hu hs
    rw [List.takeWhile_append_of_pos hu]
    cases s with
    | nil => exact List.append_nil u
    | cons c s =>
      have hc : isWordChar c = false := hs
      rw [List.takeWhile_cons, hc]
      exact List.append_nil u
  have hfronts := congrArg (List.takeWhile isWordChar) h
  rw [hfront hu hs, hfront hv ht] at hfronts
  rw [hfronts] at h ⊢
  exact ⟨rfl, List.append_cancel_left h⟩

/-- **Run by run**: a text is empty, or begins with something that is no word character, or with a run. -/
theorem run_induction {motive : Text → Prop} (nil : motive [])
    (gap : ∀ c t, isWordChar c = false → motive t → motive (c :: t))
    (run : ∀ w t, IsRun w → touchesWord t.head? = false → motive t → motive (w ++ t)) (t : Text) : motive t := by
  cases t with
  | nil => exact nil
  | cons c t =>
    cases hc : isWordChar c with
    | false => exact gap c t hc (run_induction nil gap run t)
    | true =>
      obtain ⟨w, r, hwr, hw, hr⟩ := exists_run_front (t := c :: t) hc
      have hpos := List.length_pos_iff.2 hw.1
      have hlt : r.length < (c :: t).length := by
        rw [hwr, List.length_append]
        omega
      rw [hwr]
      exact run w r hw hr (run_induction nil gap run r)
termination_by t.length
decreasing_by
  · exact Nat.lt_succ_self t.length
  · exact hlt

/-- A text that begins with no word character is empty, or what follows that character is behind an edge. -/
theorem eq_nil_or_cons_of_edge {t : Text} (h : touchesWord t.head? = false) :
    t = [] ∨ ∃ c s, t = c :: s ∧ isWordChar c = false := by
  cases t with
  | nil => exact .inl rfl
  | cons c s => exact .inr ⟨c, s, rfl, h⟩

/-! ## Strands -/

/-- Neither a blank nor part of a word: it ends a strand. -/
def isBreak (c : Char) : Bool := !isWordChar c && !isBlank c

/-- The words of a text, strand by strand. -/
def strands (t : Text) : List (List Text) := (pieces isBreak t).map words

/-- Strands after one another, the last of the first ones running on into the first of the others. -/
def glue {α : Type} : List (List α) → List (List α) → List (List α)
  | [], hs => hs
  | [g], hs => (g ++ hs.headD []) :: hs.tail
  | g :: g' :: gs, hs => g :: glue (g' :: gs) hs

section
variable {α : Type}

theorem glue_ne_nil {gs hs : List (List α)} (h : hs ≠ []) : glue gs hs ≠ [] := by
  fun_cases glue gs hs with
  | case1 => exact h
  | case2 => exact List.cons_ne_nil _ _
  | case3 => exact List.cons_ne_nil _ _

theorem glue_nil_left {hs : List (List α)} (h : hs ≠ []) : glue [[]] hs = hs := by
  obtain ⟨g, gs, rfl⟩ := List.exists_cons_of_ne_nil h
  rfl

theorem glue_nil_right (gs : List (List α)) (h : gs ≠ []) : glue gs [[]] = gs := by
  induction gs with
  | nil => exact absurd rfl h
  | cons g gs ih =>
    cases gs with
    | nil => rw [glue, List.headD_cons, List.append_nil, List.tail_cons]
    | cons g' gs => exact congrArg (g :: ·) (ih (List.cons_ne_nil g' gs))

theorem glue_cons_cons (g g' : List α) (gs hs : List (List α)) :
    glue (g :: g' :: gs) hs = g :: glue (g' :: gs) hs := rfl

theorem glue_assoc {fs gs hs : List (List α)} (hg : gs ≠ []) (hh : hs ≠ []) :
    glue (glue fs gs) hs = glue fs (glue gs hs) := by
  induction fs with
  | nil => rfl
  | cons f fs ih =>
    obtain ⟨g, gs, rfl⟩ := List.exists_cons_of_ne_nil hg
    obtain ⟨h, hs, rfl⟩ := List.exists_cons_of_ne_nil hh
    cases fs with
    | nil => cases gs <;> simp [glue]
    | cons f' fs =>
      obtain ⟨k, ks, hk⟩ : ∃ k ks, glue (f' :: fs) (g :: gs) = k :: ks := List.exists_cons_of_ne_nil (glue_ne_nil hg)
      rw [glue_cons_cons, hk, glue_cons_cons, ← hk, ih]
      rfl

theorem flatten_glue (gs hs : List (List α)) : (glue gs hs).flatten = gs.flatten ++ hs.flatten := by
  fun_induction glue gs hs with
  | case1 => rfl
  | case2 g hs => cases hs <;> simp
  | case3 g g' gs hs ih => simp [ih]

end

theorem strands_ne_nil (t : Text) : strands t ≠ [] := mt List.map_eq_nil_iff.1 (pieces_ne_nil isBreak t)

theorem isBreak_of_blank {c : Char} (h : isBlank c = true) : isBreak c = false := by
  rw [isBreak, h, Bool.not_true, Bool.and_false]

theorem isBreak_of_word {c : Char} (h : isWordChar c = true) : isBreak c = false := by
  rw [isBreak, h, Bool.not_true, Bool.false_and]

theorem isBlank_of_word {c : Char} (h : isWordChar c = true) : isBlank c = false := by
  cases hb : isBlank c with
  | false => rfl
  | true => rw [isWordChar_blank hb] at h; cases h

theorem strands_nil : strands [] = [[]] := rfl

/-- A blank goes to the first strand, and makes no difference there. -/
theorem strands_blank {b : Char} (hb : isBlank b = true) (t : Text) : strands (b :: t) = strands t := by
  obtain ⟨w, ws, ht, hbt⟩ := pieces_cons (isBreak_of_blank hb) t
  have hwords : words (b :: w) = words w := words_append hb [] w
  rw [strands, strands, hbt, ht, List.map_cons, List.map_cons, hwords]

theorem strands_break {b : Char} (hb : isBreak b = true) (t : Text) : strands (b :: t) = [] :: strands t := by
  rw [strands, pieces, if_pos hb]
  rfl

theorem pieces_run {w : Text} (hw : IsRun w) (t : Text) :
    ∃ v vs, pieces isBreak t = v :: vs ∧ pieces isBreak (w ++ t) = (w ++ v) :: vs :=
  pieces_append_free (fun c hc => isBreak_of_word (hw.2 c hc)) t

/-- **A run goes to the first strand** of what follows it. -/
theorem strands_run {w t : Text} (hw : IsRun w) (ht : touchesWord t.head? = false) :
    strands (w ++ t) = glue [[w]] (strands t) := by
  have hword : words w = [w] := by
    rw [words, pieces_of_free fun c hc => isBlank_of_word (hw.2 c hc)]
    exact List.filter_cons_of_pos (by simpa using hw.1)
  obtain ⟨v, vs, hv, hwv⟩ := pieces_run hw t
  -- the first piece of the rest is empty or begins with a blank
  have hfirst : words (w ++ v) = w :: words v := by
    cases v with
    | nil => rw [List.append_nil, hword]; rfl
    | cons b v =>
      have hb : isBlank b = true := by
        obtain rfl | ⟨c, s, rfl, hc⟩ := eq_nil_or_cons_of_edge ht
        · cases hv
        · cases hbreak : isBreak c with
          | true => rw [pieces, if_pos hbreak] at hv; cases hv
          | false =>
            obtain ⟨u, us, -, hcu⟩ := pieces_cons hbreak s
            rw [hcu] at hv
            cases hv
            simpa [isBreak, hc] using hbreak
      rw [words_append hb, hword, ← List.nil_append (b :: v), words_append hb]
      rfl
  rw [strands, strands, hv, hwv, List.map_cons, List.map_cons, hfirst]
  rfl

/-- What is no word character is a blank or a break: it leaves the strands as they are, or begins a new one. -/
theorem strands_gap {c : Char} (hc : isWordChar c = false) :
    (∀ t, strands (c :: t) = strands t) ∨ ∀ t, strands (c :: t) = [] :: strands t := by
  cases hb : isBreak c with
  | true => exact .inr (strands_break hb)
  | false => exact .inl (strands_blank (by simpa [isBreak, hc] using hb))

/-- **At a seam strands run on into each other.** -/
theorem strands_append {u v : Text} (h : Seam u.getLast? v.head?) : strands (u ++ v) = glue (strands u) (strands v) := by
  induction u using run_induction with
  | nil => exact (glue_nil_left (strands_ne_nil v)).symm
  | gap c t hc ih =>
    have ht : Seam t.getLast? v.head? := by
      cases t with
      | nil => exact .inl rfl
      | cons d t => rwa [List.getLast?_cons_cons] at h
    rcases strands_gap hc with hgap | hgap
    · rw [List.cons_append, hgap, hgap, ih ht]
    · obtain ⟨g, gs, hg⟩ := List.exists_cons_of_ne_nil (strands_ne_nil t)
      rw [List.cons_append, hgap, hgap, ih ht, hg]
      rfl
  | run w t hw ht ih =>
    have hrest : Seam t.getLast? v.head? := by
      cases t with
      | nil => exact .inl rfl
      | cons d t => rwa [getLast?_append_of_ne_nil w (List.cons_ne_nil d t)] at h
    have hedge : touchesWord (t ++ v).head? = false := by
      cases t with
      | nil =>
        rw [List.append_nil] at h
        exact h.resolve_left (by rw [hw.ends.2]; exact Bool.noConfusion)
      | cons d t => exact ht
    rw [List.append_assoc, strands_run hw hedge, ih hrest, strands_run hw ht,
      glue_assoc (strands_ne_nil t) (strands_ne_nil v)]

/-- The first strand: the words in front of the first break. -/
def lead (t : Text) : List Text := (strands t).headD []

theorem strands_eq (t : Text) : strands t = lead t :: (strands t).tail := by
  obtain ⟨g, gs, hg⟩ := List.exists_cons_of_ne_nil (strands_ne_nil t)
  rw [lead, hg]
  rfl

theorem strands_run_eq {w t : Text} (hw : IsRun w) (ht : touchesWord t.head? = false) :
    strands (w ++ t) = (w :: lead t) :: (strands t).tail := by
  rw [strands_run hw ht]
  rfl

theorem lead_run {w t : Text} (hw : IsRun w) (ht : touchesWord t.head? = false) : lead (w ++ t) = w :: lead t := by
  rw [lead, strands_run_eq hw ht]
  rfl

theorem lead_blanks {u : Text} (hu : ∀ c ∈ u, isBlank c = true) (t : Text) : lead (u ++ t) = lead t := by
  induction u with
  | nil => rfl
  | cons b u ih =>
    obtain ⟨hb, hu⟩ := List.forall_mem_cons.1 hu
    rw [List.cons_append, lead, strands_blank hb, ← lead, ih hu]

/-- A text without breaks is one strand. -/
theorem strands_of_unbroken {t : Text} (h : ∀ c ∈ t, isBreak c = false) : strands t = [words t] := by
  rw [strands, pieces_of_free h]
  rfl

/-! ## The words of strands -/

theorem wordRuns_gap {c : Char} (hc : isWordChar c = false) (t : Text) : wordRuns (c :: t) = wordRuns t := by
  rw [wordRuns, pieces, hc]
  rfl

theorem wordRuns_run {w t : Text} (hw : IsRun w) (ht : touchesWord t.head? = false) :
    wordRuns (w ++ t) = w :: wordRuns t := by
  have hkept : ∀ ws : List Text, ((w :: ws).filter fun v => !v.isEmpty) = w :: ws.filter fun v => !v.isEmpty :=
    fun ws => List.filter_cons_of_pos (by simpa using hw.1)
  have hfree : pieces (fun c => !isWordChar c) w = [w] := pieces_of_free fun c hc => by rw [hw.2 c hc]; rfl
  obtain rfl | ⟨c, s, rfl, hc⟩ := eq_nil_or_cons_of_edge ht
  · rw [List.append_nil, wordRuns, hfree, hkept]
    rfl
  · rw [wordRuns, pieces_append (by rw [hc]; rfl), hfree, List.singleton_append, hkept, wordRuns_gap hc]
    rfl

/-- **The words of a text are those of its strands**, in order. -/
theorem wordRuns_eq (t : Text) : wordRuns t = (strands t).flatten := by
  induction t using run_induction with
  | nil => rfl
  | gap c t hc ih =>
    rw [wordRuns_gap hc, ih]
    rcases strands_gap hc with hgap | hgap
    · rw [hgap]
    · rw [hgap, List.flatten_cons, List.nil_append]
  | run w t hw ht ih =>
    rw [wordRuns_run hw ht, strands_run hw ht, flatten_glue, ih]
    rfl

theorem wordRuns_append {u v : Text} (h : Seam u.getLast? v.head?) : wordRuns (u ++ v) = wordRuns u ++ wordRuns v := by
  rw [wordRuns_eq, strands_append h, flatten_glue, ← wordRuns_eq, ← wordRuns_eq]

/-! ## Blanks -/

theorem strands_joined_cons (w : Text) (ws : List Text) :
    strands (joined [' '] (w :: ws)) = glue (strands w) (strands (joined [' '] ws)) := by
  cases ws with
  | nil => exact (glue_nil_right _ (strands_ne_nil w)).symm
  | cons v vs =>
    rw [joined, List.append_assoc, strands_append (.inr rfl), List.singleton_append, strands_blank rfl]
    exact List.cons_ne_nil v vs

theorem strands_joined_append (vs ws : List Text) :
    strands (joined [' '] (vs ++ ws)) = glue (strands (joined [' '] vs)) (strands (joined [' '] ws)) := by
  induction vs with
  | nil => exact (glue_nil_left (strands_ne_nil _)).symm
  | cons v vs ih =>
    rw [List.cons_append, strands_joined_cons, ih, strands_joined_cons,
      glue_assoc (strands_ne_nil _) (strands_ne_nil _)]

/-- **How the blanks of a text are written makes no difference to its strands.** -/
theorem strands_collapsed (t : Text) : strands (collapsed t) = strands t := by
  by_cases hblank : ∃ b ∈ t, isBlank b = true
  · obtain ⟨b, hmem, hb⟩ := hblank
    obtain ⟨u, v, rfl⟩ := List.append_of_mem hmem
    have hseam : Seam u.getLast? (b :: v).head? := .inr (isWordChar_blank hb)
    rw [collapsed, words_append hb, strands_joined_append, ← collapsed, ← collapsed, strands_collapsed u,
      strands_collapsed v, strands_append hseam, strands_blank hb]
  · cases t with
    | nil => rfl
    | cons c t =>
      have hfree : ∀ d ∈ c :: t, isBlank d = false := fun d hd => by simpa using fun hd' => hblank ⟨d, hd, hd'⟩
      rw [collapsed, words, pieces_of_free hfree]
      rfl
termination_by t.length
decreasing_by all_goals subst_vars; rw [List.length_append, List.length_cons]; omega

end Text

/-- The normal form of a text without quotes says what the text does. -/
theorem Title.strands_normalize {t : Text} (h : ∀ c ∈ t, isQuote c = false) :
    Text.strands (normalize t) = Text.strands t := by
  rw [normalize, List.filter_eq_self.2 fun c hc => by rw [h c hc]; rfl, Text.strands_collapsed]

end WatchList
