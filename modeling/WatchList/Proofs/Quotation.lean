import WatchList.Quote
/-!
# Quotations beside other text

A text is **closed** when its quotes pair up.  Nothing that follows a closed text changes its parts, and it changes none
of theirs (`parts_append`); so a quotation behind a closed text is a part of the whole (`parts_between`).  And what
stands before a letter outside every quotation is closed (`closed_of_open`), which makes every place where an
instruction is cut a place where its quotations stay whole.  In a text that is not closed no quotation crosses such a
place either (`uncrossed_of_open`): what a last quote leaves open has no quote in it.
-/
namespace WatchList
namespace Quote

/-! ## Closed texts -/

/-- The quotes of the text pair up: each quotation that opens in it closes in it. -/
def Closed (t : Text) : Prop := t.countP isQuote % 2 = 0

instance (t : Text) : Decidable (Closed t) := inferInstanceAs (Decidable (_ = _))

theorem closed_nil : Closed [] := rfl

theorem free_of_any {t : Text} (h : t.any isQuote = false) : ∀ c ∈ t, isQuote c = false :=
  fun c hc => Bool.eq_false_iff.2 (List.any_eq_false.1 h c hc)

theorem countP_of_free {t : Text} (h : ∀ c ∈ t, isQuote c = false) : t.countP isQuote = 0 :=
  List.countP_eq_zero.2 (fun c hc => Bool.eq_false_iff.1 (h c hc))

theorem closed_of_free {t : Text} (h : ∀ c ∈ t, isQuote c = false) : Closed t := by
  rw [Closed, countP_of_free h]

theorem Closed.append {s t : Text} (hs : Closed s) (ht : Closed t) : Closed (s ++ t) := by
  unfold Closed at *
  rw [List.countP_append]
  omega

theorem Closed.of_append {s t : Text} (h : Closed (s ++ t)) (hs : Closed s) : Closed t := by
  unfold Closed at *
  rw [List.countP_append] at h
  omega

/-! ## Sound parts -/

/-- A plain character that is no quote, or two quotes with none between them. -/
def Part.Sound : Part → Prop
  | .plain c => isQuote c = false
  | .quoted q inner q' => isQuote q = true ∧ isQuote q' = true ∧ ∀ c ∈ inner, isQuote c = false

theorem Part.Sound.closed {p : Part} (h : p.Sound) : Closed p.text := by
  cases p with
  | plain c => exact closed_of_free (fun d hd => by rw [List.mem_singleton.1 hd]; exact h)
  | quoted q inner q' =>
    obtain ⟨hq, hq', hinner⟩ := h
    simp [Closed, Part.text, hq, hq', countP_of_free hinner]

theorem closed_flatMap {ps : List Part} (h : ∀ p ∈ ps, p.Sound) : Closed (ps.flatMap Part.text) := by
  induction ps with
  | nil => exact closed_nil
  | cons p ps ih =>
    rw [List.flatMap_cons]
    exact (h p List.mem_cons_self).closed.append (ih (fun r hr => h r (List.mem_cons_of_mem p hr)))

/-! ## The parts of any text -/

section
variable {c q : Char} {inner t : Text} (hc : isQuote c = true) (hn : isQuote c = false)
include hc

theorem partsFrom_none_quote : partsFrom none (c :: t) = partsFrom (some (c, [])) t := by
  rw [partsFrom, if_pos hc]

theorem partsFrom_some_quote :
    partsFrom (some (q, inner)) (c :: t) = .quoted q inner.reverse c :: partsFrom none t := by
  rw [partsFrom, if_pos hc]

omit hc
include hn

theorem partsFrom_none_plain : partsFrom none (c :: t) = .plain c :: partsFrom none t := by
  rw [partsFrom, if_neg (Bool.eq_false_iff.1 hn)]

theorem partsFrom_some_plain : partsFrom (some (q, inner)) (c :: t) = partsFrom (some (q, c :: inner)) t := by
  rw [partsFrom, if_neg (Bool.eq_false_iff.1 hn)]

end

/-- What is kept of an open quotation while a text is read: its quote, and no quote since. -/
def Opened : Option (Char × Text) → Prop
  | none => True
  | some (q, inner) => isQuote q = true ∧ ∀ c ∈ inner, isQuote c = false

def openText : Option (Char × Text) → Text
  | none => []
  | some (q, inner) => q :: inner.reverse

theorem partsFrom_nil (o : Option (Char × Text)) : partsFrom o [] = (openText o).map .plain := by
  cases o <;> rfl

theorem not_closed_openText {q : Char} {inner : Text} (h : Opened (some (q, inner))) :
    ¬ Closed (openText (some (q, inner))) := by
  simp [Closed, openText, h.1, countP_of_free h.2]

/-- **The parts of any text**: sound ones, then the characters of the quotation left open, if there is one. -/
theorem partsFrom_eq {o : Option (Char × Text)} (ho : Opened o) (t : Text) :
    ∃ ps last, partsFrom o t = ps ++ (openText last).map .plain ∧ (∀ p ∈ ps, p.Sound) ∧ Opened last := by
  induction t generalizing o with
  | nil => exact ⟨[], o, partsFrom_nil o, fun _ h => absurd h List.not_mem_nil, ho⟩
  | cons c t ih =>
    rcases o with _ | ⟨q, inner⟩
    · cases hc : isQuote c with
      | true =>
        rw [partsFrom_none_quote hc]
        exact ih ⟨hc, fun _ h => absurd h List.not_mem_nil⟩
      | false =>
        obtain ⟨ps, last, hps, hsound, hlast⟩ := ih (o := none) trivial
        rw [partsFrom_none_plain hc, hps]
        exact ⟨.plain c :: ps, last, rfl, List.forall_mem_cons.2 ⟨hc, hsound⟩, hlast⟩
    · cases hc : isQuote c with
      | true =>
        obtain ⟨ps, last, hps, hsound, hlast⟩ := ih (o := none) trivial
        rw [partsFrom_some_quote hc, hps]
        have hQ : (Part.quoted q inner.reverse c).Sound := ⟨ho.1, hc, fun d hd => ho.2 d (List.mem_reverse.1 hd)⟩
        exact ⟨.quoted q inner.reverse c :: ps, last, rfl, List.forall_mem_cons.2 ⟨hQ, hsound⟩, hlast⟩
      | false =>
        rw [partsFrom_some_plain hc]
        exact ih ⟨ho.1, List.forall_mem_cons.2 ⟨hc, ho.2⟩⟩

theorem sound_parts {t : Text} (h : Closed t) : ∀ p ∈ parts t, p.Sound := by
  obtain ⟨ps, last, hps, hsound, hlast⟩ := partsFrom_eq (o := none) trivial t
  have ht : t = ps.flatMap Part.text ++ openText last := by
    rw [← text_parts t, parts, hps, List.flatMap_append, List.flatMap_map]
    congr 1
    exact List.flatMap_singleton' _
  rcases last with _ | ⟨q, inner⟩
  · rw [parts, hps, openText, List.map_nil, List.append_nil]
    exact hsound
  · rw [ht] at h
    exact absurd (h.of_append (closed_flatMap hsound)) (not_closed_openText hlast)

def Part.inner? : Part → Option Text
  | .plain _ => none
  | .quoted _ inner _ => some inner

theorem inners_eq (t : Text) : inners t = (parts t).filterMap Part.inner? :=
  congrArg (List.filterMap · (parts t)) (funext fun part => by cases part <;> rfl)

theorem sound_of_parts_eq {t : Text} {ps ps' : List Part} {q q' : Char} {inner : Text}
    (h : parts t = ps ++ .quoted q inner q' :: ps') : (∀ p ∈ ps, p.Sound) ∧ (Part.quoted q inner q').Sound := by
  obtain ⟨ss, last, hss, hsound, -⟩ := partsFrom_eq (o := none) trivial t
  have hplain : Part.quoted q inner q' ∉ (openText last).map .plain := fun hm => by
    obtain ⟨c, -, hc⟩ := List.mem_map.1 hm
    cases hc
  rw [parts, hss] at h
  rcases List.append_eq_append_iff.1 h with ⟨rs, -, hr⟩ | ⟨rs, rfl, hr⟩
  · exact absurd (by rw [hr]; simp) hplain
  · cases rs with
    | nil => exact absurd (by rw [List.nil_append] at hr; rw [← hr]; exact List.mem_cons_self) hplain
    | cons r rs =>
      obtain ⟨rfl, -⟩ := List.cons.inj hr
      exact ⟨fun p hp => hsound p (List.mem_append_left _ hp), hsound _ (by simp)⟩

/-! ## Side by side -/

theorem partsFrom_append {o : Option (Char × Text)} {u : Text} (v : Text)
    (h : (o.toList.length + u.countP isQuote) % 2 = 0) : partsFrom o (u ++ v) = partsFrom o u ++ parts v := by
  induction u generalizing o with
  | nil =>
    rcases o with _ | o
    · rfl
    · cases h
  | cons c u ih =>
    rw [List.countP_cons] at h
    rw [List.cons_append]
    rcases o with _ | ⟨q, inner⟩ <;> cases hc : isQuote c <;>
      simp only [hc, ↓reduceIte, Bool.false_eq_true, Option.toList, List.length_nil, List.length_singleton] at h
    · rw [partsFrom_none_plain hc, partsFrom_none_plain hc, ih (by simpa using h)]
      rfl
    · rw [partsFrom_none_quote hc, partsFrom_none_quote hc, ih (by simpa [Nat.add_comm] using h)]
    · rw [partsFrom_some_plain hc, partsFrom_some_plain hc, ih (by simpa using h)]
    · rw [partsFrom_some_quote hc, partsFrom_some_quote hc, ih (by simp only [Option.toList, List.length_nil]; omega)]
      rfl

/-- **The parts of a closed text and of what follows it stand side by side.** -/
theorem parts_append {u : Text} (hu : Closed u) (v : Text) : parts (u ++ v) = parts u ++ parts v :=
  partsFrom_append v (by rw [Option.toList, List.length_nil, Nat.zero_add]; exact hu)

theorem letters_append {u : Text} (hu : Closed u) (v : Text) : letters (u ++ v) = letters u ++ letters v := by
  rw [letters, parts_append hu, List.flatMap_append]
  rfl

theorem letters_nil : letters [] = [] := rfl

theorem letters_cons {c : Char} (hc : isQuote c = false) (t : Text) : letters (c :: t) = ⟨c, false⟩ :: letters t := by
  rw [letters, parts, partsFrom_none_plain hc]
  rfl

theorem letters_of_free {s : Text} (hs : ∀ c ∈ s, isQuote c = false) (t : Text) :
    letters (s ++ t) = s.map (⟨·, false⟩) ++ letters t := by
  induction s with
  | nil => rfl
  | cons c s ih =>
    obtain ⟨hc, hs⟩ := List.forall_mem_cons.1 hs
    rw [List.cons_append, letters_cons hc, ih hs]
    rfl

theorem partsFrom_some_run {q q' : Char} {s acc : Text} (hs : ∀ c ∈ s, isQuote c = false) (hq' : isQuote q' = true) :
    partsFrom (some (q, acc)) (s ++ [q']) = [.quoted q (acc.reverse ++ s) q'] := by
  induction s generalizing acc with
  | nil =>
    rw [List.nil_append, partsFrom_some_quote hq', List.append_nil]
    rfl
  | cons c s ih =>
    obtain ⟨hc, hs⟩ := List.forall_mem_cons.1 hs
    rw [List.cons_append, partsFrom_some_plain hc, ih hs, List.reverse_cons, List.append_assoc]
    rfl

theorem parts_text {p : Part} (h : p.Sound) : parts p.text = [p] := by
  cases p with
  | plain c => exact partsFrom_none_plain h
  | quoted q inner q' =>
    obtain ⟨hq, hq', hinner⟩ := h
    rw [Part.text, parts, partsFrom_none_quote hq, partsFrom_some_run hinner hq']
    rfl

def Part.between (p : Part) (x y : Text) : Text := x ++ p.text ++ y

section
variable {x : Text} (hx : Closed x) {p : Part} (hp : p.Sound) (y : Text)
include hx hp

theorem parts_between : parts (p.between x y) = parts x ++ p :: parts y := by
  rw [Part.between, List.append_assoc, parts_append hx, parts_append hp.closed, parts_text hp]
  rfl

theorem letters_between : letters (p.between x y) = letters x ++ p.letters ++ letters y := by
  rw [letters, parts_between hx hp, List.flatMap_append, List.flatMap_cons, ← List.append_assoc]
  rfl

end

theorem inners_between {x : Text} (hx : Closed x) {q q' : Char} {inner : Text} (hp : (Part.quoted q inner q').Sound)
    (y : Text) : inners ((Part.quoted q inner q').between x y) = inners x ++ inner :: inners y := by
  rw [inners, parts_between hx hp, List.filterMap_append, List.filterMap_cons]
  rfl

theorem withoutQuoted_between {x : Text} (hx : Closed x) {q q' : Char} {inner : Text}
    (hp : (Part.quoted q inner q').Sound) (y : Text) :
    withoutQuoted ((Part.quoted q inner q').between x y) = withoutQuoted x ++ ',' :: withoutQuoted y := by
  rw [withoutQuoted, parts_between hx hp, List.flatMap_append, List.flatMap_cons]
  rfl

/-! ## Letters outside quotations -/

theorem quoted_of_mem_letters {q q' : Char} {inner : Text} {l : Letter}
    (h : l ∈ (Part.quoted q inner q').letters) : l.quoted = true := by
  obtain ⟨c, -, rfl⟩ := List.mem_map.1 h
  rfl

theorem closed_of_flatMap_letters {ps : List Part} (hps : ∀ p ∈ ps, p.Sound) {as bs : List Letter} {l : Letter}
    (h : ps.flatMap Part.letters = as ++ l :: bs) (hl : l.quoted = false) : Closed (as.map Letter.char) := by
  induction ps generalizing as with
  | nil => exact absurd h.symm (List.append_ne_nil_of_right_ne_nil as (List.cons_ne_nil l bs))
  | cons p ps ih =>
    obtain ⟨hp, hps⟩ := List.forall_mem_cons.1 hps
    rw [List.flatMap_cons] at h
    rcases List.append_eq_append_iff.1 h with ⟨rest, rfl, hrest⟩ | ⟨rest, hrest, hbs⟩
    · rw [List.map_append, Part.char_letters]
      exact hp.closed.append (ih hps hrest)
    · cases rest with
      | nil =>
        rw [List.append_nil] at hrest
        rw [← hrest, Part.char_letters]
        exact hp.closed
      | cons l' rest =>
        obtain ⟨rfl, -⟩ := List.cons.inj hbs
        cases p with
        | plain c =>
          -- a plain part has one letter, so nothing stands before it
          cases as with
          | nil => exact closed_nil
          | cons a as =>
            obtain ⟨-, hnil⟩ := List.cons.inj hrest
            exact absurd hnil.symm (List.append_ne_nil_of_right_ne_nil as (List.cons_ne_nil l rest))
        | quoted q inner q' =>
          have hmem : l ∈ (Part.quoted q inner q').letters := by rw [hrest]; simp
          rw [quoted_of_mem_letters hmem] at hl
          cases hl

/-- **What stands before a letter outside the quotations of a closed text is closed.** -/
theorem closed_of_open {t : Text} (ht : Closed t) {as bs : List Letter} {l : Letter}
    (h : letters t = as ++ l :: bs) (hl : l.quoted = false) : Closed (as.map Letter.char) :=
  closed_of_flatMap_letters (sound_parts ht) h hl

/-! ## Places that no quotation crosses -/

/-- No quotation begins in the one text and ends in the other: the first is closed, or the second has no quote. -/
def Uncrossed (u v : Text) : Prop := Closed u ∨ ∀ c ∈ v, isQuote c = false

theorem partsFrom_of_free {v : Text} (hv : ∀ c ∈ v, isQuote c = false) (o : Option (Char × Text)) :
    partsFrom o v = (openText o ++ v).map .plain := by
  induction v generalizing o with
  | nil => rw [List.append_nil, partsFrom_nil]
  | cons c v ih =>
    obtain ⟨hc, hv⟩ := List.forall_mem_cons.1 hv
    rcases o with _ | ⟨q, inner⟩
    · rw [partsFrom_none_plain hc, ih hv]
      rfl
    · rw [partsFrom_some_plain hc, ih hv, openText, openText, List.reverse_cons, List.cons_append, List.cons_append,
        List.append_assoc]
      rfl

theorem partsFrom_append_free {v : Text} (hv : ∀ c ∈ v, isQuote c = false) (o : Option (Char × Text)) (u : Text) :
    partsFrom o (u ++ v) = partsFrom o u ++ v.map .plain := by
  induction u generalizing o with
  | nil => rw [List.nil_append, partsFrom_of_free hv, partsFrom_nil, List.map_append]
  | cons c u ih =>
    rw [List.cons_append]
    rcases o with _ | ⟨q, inner⟩ <;> cases hc : isQuote c
    · rw [partsFrom_none_plain hc, partsFrom_none_plain hc, ih, List.cons_append]
    · rw [partsFrom_none_quote hc, partsFrom_none_quote hc, ih]
    · rw [partsFrom_some_plain hc, partsFrom_some_plain hc, ih]
    · rw [partsFrom_some_quote hc, partsFrom_some_quote hc, ih, List.cons_append]

namespace Uncrossed

variable {u v w : Text}

/-- **Around a place that no quotation crosses, the parts of two texts stand side by side.** -/
theorem parts_append (h : Uncrossed u v) : parts (u ++ v) = parts u ++ parts v := by
  rcases h with hu | hv
  · exact Quote.parts_append hu v
  · rw [parts, partsFrom_append_free hv, parts, parts, partsFrom_of_free hv none]
    rfl

theorem letters_append (h : Uncrossed u v) : letters (u ++ v) = letters u ++ letters v := by
  rw [letters, h.parts_append, List.flatMap_append]
  rfl

theorem inners_append (h : Uncrossed u v) : inners (u ++ v) = inners u ++ inners v := by
  rw [inners, h.parts_append, List.filterMap_append]
  rfl

/-- Text without quotes may go from the one side to the other. -/
theorem behind (h : Uncrossed u (w ++ v)) (hw : ∀ c ∈ w, isQuote c = false) : Uncrossed w v ∧ Uncrossed (u ++ w) v :=
  ⟨.inl (closed_of_free hw), h.imp (fun hu => hu.append (closed_of_free hw))
    fun hv c hc => hv c (List.mem_append_right w hc)⟩

end Uncrossed

theorem letters_eq_of_free {w : Text} (hw : ∀ c ∈ w, isQuote c = false) : letters w = w.map (⟨·, false⟩) := by
  have h := letters_of_free hw []
  rwa [letters_nil, List.append_nil, List.append_nil] at h

theorem inners_of_free {w : Text} (hw : ∀ c ∈ w, isQuote c = false) : inners w = [] := by
  rw [inners, parts, partsFrom_of_free hw none, List.filterMap_eq_nil_iff]
  intro p hp
  obtain ⟨c, -, rfl⟩ := List.mem_map.1 hp
  rfl

/-- The letters of a text that no quotation crosses are those of its two halves. -/
theorem letters_halves {t : Text} {as bs : List Letter} (h : letters t = as ++ bs)
    (hcross : Uncrossed (as.map Letter.char) (bs.map Letter.char)) :
    letters (as.map Letter.char) = as ∧ letters (bs.map Letter.char) = bs := by
  have ht : t = as.map Letter.char ++ bs.map Letter.char := by rw [← char_letters t, h, List.map_append]
  rw [ht, hcross.letters_append] at h
  refine List.append_inj h ?_
  rw [← List.length_map Letter.char, char_letters, List.length_map]

/-- **No quotation crosses to a letter outside the quotations of a text**, whether the text is closed or not. -/
theorem uncrossed_of_open {t : Text} {as bs : List Letter} {l : Letter} (h : letters t = as ++ l :: bs)
    (hl : l.quoted = false) : Uncrossed (as.map Letter.char) ((l :: bs).map Letter.char) := by
  obtain ⟨ps, last, hps, hsound, hlast⟩ := partsFrom_eq (o := none) trivial t
  have hletters : letters t = ps.flatMap Part.letters ++ (openText last).map (⟨·, false⟩) := by
    rw [letters, parts, hps, List.flatMap_append, List.flatMap_map]
    congr 1
    exact List.map_eq_flatMap.symm
  have hpairs : Closed ((ps.flatMap Part.letters).map Letter.char) := by
    rw [List.map_flatMap]
    simp only [Part.char_letters]
    exact closed_flatMap hsound
  rw [hletters] at h
  rcases List.append_eq_append_iff.1 h with ⟨rest, rfl, hrest⟩ | ⟨rest, hpaired, hrest⟩
  · cases rest with
    | nil =>
      left
      rwa [List.append_nil]
    | cons m rest =>
      -- only the first character of what is left open is a quote
      right
      have hchars : (m :: (rest ++ l :: bs)).map Letter.char = openText last := by
        rw [← List.cons_append, ← hrest, List.map_map]
        exact List.map_id _
      rcases last with _ | ⟨q, inner⟩
      · cases hchars
      · obtain ⟨-, hinner⟩ := List.cons.inj hchars
        rw [List.map_append] at hinner
        intro c hc
        refine hlast.2 c (List.mem_reverse.1 ?_)
        rw [← hinner]
        exact List.mem_append_right _ hc
  · left
    cases rest with
    | nil =>
      rw [List.append_nil] at hpaired
      rwa [← hpaired]
    | cons m rest =>
      obtain ⟨rfl, -⟩ := List.cons.inj hrest
      exact closed_of_flatMap_letters hsound hpaired hl

end Quote
end WatchList
