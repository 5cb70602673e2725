import Mathlib.Data.List.Forall2
import WatchList.Proofs.Stretches
/-!
# Instructions in other spacing

Two texts that are the same but for the blanks in a row (`Respaced`) are read alike, function by function up to the plan
(`Plan.ofText_congr`).  What is found in the one is found in the other, the same but for spacing (`Found.Respaced`); cuts
leave as many pieces, matched one by one; quotations stand where they stood; and where a title or a status word is read at
last, only its words are (`Text.words_congr`), so that nothing of the spacing is left.

A line end is a blank too, but it separates titles, so it is never spacing.  With one space for each run of other blanks
(`Text.respaced`) an instruction keeps its plan.
-/
namespace WatchList

open Text (words collapsed trim joined)

theorem ne_of_isSpacing {c d : Char} (hc : isSpacing c = true) (hd : isSpacing d = false) : c ≠ d := by
  rintro rfl
  rw [hc] at hd
  cases hd

theorem isSeparator_of_isSpacing {c : Char} (h : isSpacing c = true) : Title.isSeparator c = false := by
  rw [Title.isSeparator, Bool.or_eq_false_iff, beq_eq_false_iff_ne, beq_eq_false_iff_ne]
  exact ⟨ne_of_isSpacing h (by decide), ne_of_isSpacing h (by decide)⟩

/-! ## The vocabulary -/

namespace Vocabulary

theorem spacedPhrases_tables : ∀ table ∈ [addVerbs, removeVerbs, statusVerbs, conjunctions, pivots, addStops, removeStops,
    statusAliases.map Prod.fst, possessives ++ listArticles, listNouns, possessives], Pattern.SpacedPhrases table := by
  decide +kernel

theorem words_spacingBlind (table : List Text) (h : table ∈ [addVerbs, removeVerbs, statusVerbs, conjunctions, pivots,
    addStops, removeStops, statusAliases.map Prod.fst, possessives ++ listArticles, listNouns, possessives]) :
    (Pattern.word table).SpacingBlind := Pattern.word_spacingBlind (spacedPhrases_tables table h)

theorem addVerb_spacingBlind : addVerb.SpacingBlind := words_spacingBlind addVerbs (by simp)

theorem removeVerb_spacingBlind : removeVerb.SpacingBlind := words_spacingBlind removeVerbs (by simp)

theorem statusVerb_spacingBlind : statusVerb.SpacingBlind := words_spacingBlind statusVerbs (by simp)

theorem conjunction_spacingBlind : conjunction.SpacingBlind := words_spacingBlind conjunctions (by simp)

theorem pivot_spacingBlind : pivot.SpacingBlind := words_spacingBlind pivots (by simp)

theorem addStop_spacingBlind : addStop.SpacingBlind := words_spacingBlind addStops (by simp)

theorem removeStop_spacingBlind : removeStop.SpacingBlind := words_spacingBlind removeStops (by simp)

theorem statusAlias_spacingBlind : statusAlias.SpacingBlind := words_spacingBlind (statusAliases.map Prod.fst) (by simp)

theorem possessive_spacingBlind : possessive.SpacingBlind := words_spacingBlind possessives (by simp)

theorem delimiter_spacingBlind : delimiter.SpacingBlind := by
  refine conjunction_spacingBlind.orElse (Pattern.one_spacingBlind fun c hc => ?_)
  rw [Bool.or_eq_false_iff, beq_eq_false_iff_ne, beq_eq_false_iff_ne]
  exact ⟨ne_of_isSpacing hc (by decide), ne_of_isSpacing hc (by decide)⟩

theorem fillerPhrase_spacingBlind : fillerPhrase.SpacingBlind :=
  ((words_spacingBlind (possessives ++ listArticles) (by simp)).andThen Pattern.blanks_ignoresSpacing).andThen
    ((words_spacingBlind listNouns (by simp)).ignores.andThen
      (Pattern.blanks_ignoresSpacing.andThen (Pattern.phrase_ignoresSpacing (by decide))).perhaps)

end Vocabulary

/-! ## Hits -/

theorem Respaced.map_char {α : Type} {char : α → Char} {as bs : List α} (h : Respaced char as bs) :
    Respaced id (as.map char) (bs.map char) := Stretched.map (fun _ _ => congrArg char) (fun _ ha => ha) h

theorem rel_map {α β : Type} {R : α → α → Prop} {S : β → β → Prop} {f g : α → β} {a? b? : Option α}
    (h : Option.Rel R a? b?) (hfg : ∀ a b, R a b → S (f a) (g b)) : Option.Rel S (a?.map f) (b?.map g) := by
  cases h with
  | none => exact .none
  | some h => exact .some (hfg _ _ h)

/-- The tokens of two lists of letters that are the same but for spacing. -/
abbrev TokensRespaced (ts us : List (Token Letter)) : Prop :=
  Stretched (Token.isSpacing Letter.char) (Token.Respaced Letter.char) ts us

/-- A hit in each of two lists of letters, the hits and what is around them the same but for spacing. -/
structure Found.Respaced (f g : Found) : Prop where
  before : WatchList.Respaced Letter.char f.before g.before
  phrase : WatchList.Respaced Letter.char f.phrase g.phrase
  after : WatchList.Respaced Letter.char f.after g.after

namespace Found.Respaced

variable {f g : Found}

theorem touchesWord_lastChar (h : f.Respaced g) : touchesWord f.lastChar = touchesWord g.lastChar := by
  have hlast := h.phrase.touchesWord_last (Eq.refl (touchesWord none))
  rwa [Option.or_none, Option.or_none, List.getLast?_map, List.getLast?_map] at hlast

theorem text (h : f.Respaced g) : WatchList.Respaced id f.text g.text := h.phrase.map_char

theorem behind {ls ms : List Letter} (hls : WatchList.Respaced Letter.char ls ms) {f? g? : Option Found}
    (h : Option.Rel Found.Respaced f? g?) :
    Option.Rel Found.Respaced (f?.map (Found.behind ls)) (g?.map (Found.behind ms)) :=
  rel_map h fun _ _ h => ⟨hls.append h.before, h.phrase, h.after⟩

end Found.Respaced

namespace TokensRespaced

/-- A run of tokens that are spacing holds no hit. -/
theorem not_hit_mem {ts : List (Token Letter)} (h : IsSoftRun (Token.isSpacing Letter.char) ts) (l : Letter)
    (ls : List Letter) : Token.hit l ls ∉ ts := fun hmem => Bool.noConfusion (h.2 _ hmem)

variable {ts us : List (Token Letter)}

theorem items (h : TokensRespaced ts us) :
    Respaced Letter.char (ts.flatMap Token.items) (us.flatMap Token.items) := by
  refine Stretched.flatMap (fun tok tok' htok => ?_) (fun tok htok => ?_) h
  · cases htok with
    | gap l => exact Respaced.refl [l]
    | hit l hls => exact .cons rfl hls
  · cases tok with
    | gap l => exact ⟨List.cons_ne_nil _ _, List.forall_mem_singleton.2 htok⟩
    | hit l ls => cases htok

/-- **The first open hit** of the one list is that of the other. -/
theorem ofTokens? (h : TokensRespaced ts us) :
    Option.Rel Found.Respaced (Found.ofTokens? ts) (Found.ofTokens? us) := by
  induction h with
  | nil => exact .none
  | cons head tail ih =>
    cases head with
    | gap l => exact Found.Respaced.behind (Respaced.refl [l]) ih
    | hit l hls =>
      rw [Found.ofTokens?, Found.ofTokens?]
      split
      · exact Found.Respaced.behind (.cons rfl hls) ih
      · exact .some ⟨.nil, .cons rfl hls, items tail⟩
  | run left right _ ih =>
    have hnone : ∀ {ts : List (Token Letter)}, IsSoftRun (Token.isSpacing Letter.char) ts →
        Found.ofTokens? ts = none := fun hts =>
      Pattern.ofTokens?_eq_none_iff.2 fun l ls hmem => absurd hmem (not_hit_mem hts l ls)
    rw [Pattern.ofTokens?_append_of_none _ (hnone left), Pattern.ofTokens?_append_of_none _ (hnone right)]
    exact Found.Respaced.behind (items (.of_run left right)) ih

/-- **The cuts** of the one list are those of the other. -/
theorem cutTokens (h : TokensRespaced ts us) :
    List.Forall₂ (Respaced id) (Pattern.cutTokens ts) (Pattern.cutTokens us) := by
  have honto : ∀ {s t : Text} {ws vs : List Text}, Respaced id s t → List.Forall₂ (Respaced id) ws vs →
      List.Forall₂ (Respaced id) (Pattern.onto s ws) (Pattern.onto t vs) := by
    intro s t ws vs hst hws
    cases hws with
    | nil => exact .cons hst .nil
    | cons hw hws => exact .cons (hst.append hw) hws
  induction h with
  | nil => exact .cons .nil .nil
  | cons head _ ih =>
    cases head with
    | gap l => exact honto (Respaced.refl [l.char]) ih
    | hit l hls =>
      rw [Pattern.cutTokens, Pattern.cutTokens]
      split
      · exact honto (Respaced.map_char (.cons rfl hls)) ih
      · exact .cons .nil ih
  | @run ts us _ _ left right _ ih =>
    have hgaps : ∀ {ts ws : List (Token Letter)}, IsSoftRun (Token.isSpacing Letter.char) ts →
        Pattern.cutTokens (ts ++ ws) = Pattern.onto ((ts.flatMap Token.items).map Letter.char) (Pattern.cutTokens ws) := by
      intro ts ws hts
      obtain ⟨y, ys, hws⟩ := List.exists_cons_of_ne_nil (Pattern.cutTokens_ne_nil ws)
      have hwhole : Pattern.cutTokens ts = [] ++ [(ts.flatMap Token.items).map Letter.char] :=
        Pattern.cutTokens_of_quoted fun l ls hmem => absurd hmem (not_hit_mem hts l ls)
      rw [Pattern.cutTokens_append hwhole hws, hws]
      rfl
    rw [hgaps left, hgaps right]
    exact honto (items (.of_run left right)).map_char ih

end TokensRespaced

namespace Pattern.SpacingBlind

variable {p : Pattern} (hp : p.SpacingBlind)
include hp

theorem find {ls ms : List Letter} {before before' : Option Char} (hbefore : touchesWord before = touchesWord before')
    (h : Respaced Letter.char ls ms) : Option.Rel Found.Respaced (p.find before ls) (p.find before' ms) :=
  TokensRespaced.ofTokens? (scan_respaced hp Letter.char hbefore h)

theorem findAfter {f g : Found} (h : f.Respaced g) : Option.Rel Found.Respaced (p.findAfter f) (p.findAfter g) :=
  hp.find h.touchesWord_lastChar h.after

theorem opensIn {ls ms : List Letter} (h : Respaced Letter.char ls ms) : p.opensIn ls = p.opensIn ms := by
  have hfind := hp.find (Eq.refl (touchesWord none)) h
  rw [Pattern.opensIn, Pattern.opensIn]
  generalize p.find none ls = f? at hfind ⊢
  generalize p.find none ms = g? at hfind ⊢
  cases hfind <;> rfl

theorem replaceAll (r : Text) {t u : Text} (h : Respaced id t u) : Respaced id (p.replaceAll r t) (p.replaceAll r u) := by
  rw [replaceAll_eq, replaceAll_eq]
  refine Stretched.flatMap (fun tok tok' htok => ?_) (fun tok htok => ?_) (scan_respaced hp id (Eq.refl (touchesWord none)) h)
  · cases htok with
    | gap c => exact Respaced.refl [c]
    | hit c hcs => exact Respaced.refl r
  · cases tok with
    | gap c => exact ⟨List.cons_ne_nil _ _, List.forall_mem_singleton.2 htok⟩
    | hit c cs => cases htok

end Pattern.SpacingBlind

/-! ## Quotations -/

namespace Quote

/-- The part is a blank outside every quotation that ends no line. -/
def Part.isSpacing : Part → Bool
  | .plain c => WatchList.isSpacing c
  | .quoted _ _ _ => false

/-- The parts are the same but for spacing inside a quotation. -/
inductive Part.Respaced : Part → Part → Prop
  | plain (c : Char) : Part.Respaced (.plain c) (.plain c)
  | quoted (q q' : Char) {inner inner' : Text} (h : WatchList.Respaced id inner inner') :
    Part.Respaced (.quoted q inner q') (.quoted q inner' q')

theorem isSoftRun_plain {us : Text} (h : IsSoftRun isSpacing us) : IsSoftRun Part.isSpacing (us.map Part.plain) := by
  refine ⟨by simpa using h.1, fun part hpart => ?_⟩
  obtain ⟨c, hc, rfl⟩ := List.mem_map.1 hpart
  exact h.2 c hc

theorem free_of_spacing {us : Text} (h : IsSoftRun isSpacing us) : ∀ c ∈ us, isQuote c = false :=
  Text.free_of_blank fun c hc => isBlank_of_isSpacing (h.2 c hc)

theorem partsFrom_some_append_free {v : Text} (hv : ∀ c ∈ v, isQuote c = false) (q : Char) (inner t : Text) :
    partsFrom (some (q, inner)) (v ++ t) = partsFrom (some (q, v.reverse ++ inner)) t := by
  induction v generalizing inner with
  | nil => rfl
  | cons c v ih =>
    obtain ⟨hc, hv⟩ := List.forall_mem_cons.1 hv
    rw [List.cons_append, partsFrom_some_plain hc, ih hv, List.reverse_cons, List.append_assoc]
    rfl

/-- While a text is read: what is read of both texts is the same but for spacing, whatever is open. -/
theorem partsFrom_respaced {t u : Text} (h : Respaced id t u) :
    Stretched Part.isSpacing Part.Respaced (partsFrom none t) (partsFrom none u) ∧
      ∀ (q : Char) {inner inner' : Text}, Respaced id inner inner' →
        Stretched Part.isSpacing Part.Respaced (partsFrom (some (q, inner)) t) (partsFrom (some (q, inner')) u) := by
  have hplain : ∀ {t u : Text}, Respaced id t u →
      Stretched Part.isSpacing Part.Respaced (t.map .plain) (u.map .plain) := fun h =>
    h.map (fun c d (hc : c = d) => hc ▸ .plain c) fun _ hc => hc
  induction h with
  | nil => exact ⟨.nil, fun q inner inner' hinner => .cons (.plain q) (hplain hinner.reverse)⟩
  | @cons c _ _ _ head _ ih =>
    obtain rfl := head
    cases hc : isQuote c with
    | true =>
      rw [partsFrom_none_quote hc, partsFrom_none_quote hc]
      refine ⟨ih.2 c .nil, fun q inner inner' hinner => ?_⟩
      rw [partsFrom_some_quote hc, partsFrom_some_quote hc]
      exact .cons (.quoted q c hinner.reverse) ih.1
    | false =>
      rw [partsFrom_none_plain hc, partsFrom_none_plain hc]
      refine ⟨.cons (.plain c) ih.1, fun q inner inner' hinner => ?_⟩
      rw [partsFrom_some_plain hc, partsFrom_some_plain hc]
      exact ih.2 q (.cons rfl hinner)
  | @run us vs as bs left right _ ih =>
    have hnone : ∀ {us : Text} (t : Text), IsSoftRun isSpacing us →
        partsFrom none (us ++ t) = us.map .plain ++ partsFrom none t := fun t hus =>
      (parts_append (closed_of_free (free_of_spacing hus)) t).trans
        (congrArg (· ++ parts t) (partsFrom_of_free (free_of_spacing hus) none))
    rw [hnone as left, hnone bs right]
    refine ⟨.run (isSoftRun_plain left) (isSoftRun_plain right) ih.1, fun q inner inner' hinner => ?_⟩
    rw [partsFrom_some_append_free (free_of_spacing left), partsFrom_some_append_free (free_of_spacing right)]
    exact ih.2 q ((Stretched.of_run left right).reverse.append hinner)

section
variable {t u : Text} (h : Respaced id t u)
include h

/-- **The quotations of the one text are those of the other.** -/
theorem parts_respaced : Stretched Part.isSpacing Part.Respaced (parts t) (parts u) := (partsFrom_respaced h).1

theorem letters_respaced : Respaced Letter.char (letters t) (letters u) := by
  refine Stretched.flatMap (fun part part' hpart => ?_) (fun part hpart => ?_) (parts_respaced h)
  · cases hpart with
    | plain c => exact Respaced.refl _
    | @quoted q q' inner inner' hinner =>
      have hwhole : Respaced id (q :: (inner ++ [q'])) (q :: (inner' ++ [q'])) :=
        .cons rfl (hinner.append (Respaced.refl [q']))
      exact hwhole.map (fun _ _ => congrArg (Letter.mk · true)) fun _ hc => hc
  · cases part with
    | plain c => exact ⟨List.cons_ne_nil _ _, List.forall_mem_singleton.2 hpart⟩
    | quoted q inner q' => cases hpart

theorem withoutQuoted_respaced : Respaced id (withoutQuoted t) (withoutQuoted u) := by
  refine Stretched.flatMap (fun part part' hpart => ?_) (fun part hpart => ?_) (parts_respaced h)
  · cases hpart with
    | plain c => exact Respaced.refl [c]
    | quoted q q' _ => exact Respaced.refl [',']
  · cases part with
    | plain c => exact ⟨List.cons_ne_nil _ _, List.forall_mem_singleton.2 hpart⟩
    | quoted q inner q' => cases hpart

theorem inners_respaced : List.Forall₂ (Respaced id) (inners t) (inners u) := by
  have hparts := parts_respaced h
  rw [inners_eq, inners_eq]
  generalize parts t = ps at hparts ⊢
  generalize parts u = rs at hparts ⊢
  clear h
  induction hparts with
  | nil => exact .nil
  | cons head _ ih =>
    cases head with
    | plain c => exact ih
    | quoted q q' hinner => exact .cons hinner ih
  | run left right _ ih =>
    have hnone : ∀ {ps : List Part}, IsSoftRun Part.isSpacing ps → ps.filterMap Part.inner? = [] := by
      intro ps hps
      refine List.filterMap_eq_nil_iff.2 fun part hpart => ?_
      cases part with
      | plain c => rfl
      | quoted q inner q' => cases hps.2 _ hpart
    rw [List.filterMap_append, List.filterMap_append, hnone left, hnone right]
    exact ih

end
end Quote

/-! ## Texts -/

namespace Text

variable {t u : Text} (h : Respaced id t u)
include h

theorem trim_respaced : Respaced id t.trim u.trim := by
  have hleft : ∀ {t u : Text}, Respaced id t u → Respaced id (trimLeft t) (trimLeft u) := fun h =>
    (h.exists_takeWhile isBlank (fun _ _ => congrArg isBlank) fun _ hc => isBlank_of_isSpacing hc).2
  exact (hleft (hleft h).reverse).reverse

/-- **The pieces between commas and line ends** of the one text are those of the other. -/
theorem pieces_respaced : List.Forall₂ (Respaced id) (pieces Title.isSeparator t) (pieces Title.isSeparator u) := by
  have hfront : ∀ {v w x y : Text}, (∀ c ∈ v, Title.isSeparator c = false) → (∀ c ∈ w, Title.isSeparator c = false) →
      Respaced id v w → List.Forall₂ (Respaced id) (pieces Title.isSeparator x) (pieces Title.isSeparator y) →
      List.Forall₂ (Respaced id) (pieces Title.isSeparator (v ++ x)) (pieces Title.isSeparator (w ++ y)) := by
    intro v w x y hv hw hvw hxy
    obtain ⟨p, ps, hx, hvx⟩ := pieces_append_free hv x
    obtain ⟨q, qs, hy, hwy⟩ := pieces_append_free hw y
    rw [hx, hy] at hxy
    rw [hvx, hwy]
    cases hxy with
    | cons hpq hmore => exact .cons (hvw.append hpq) hmore
  induction h with
  | nil => exact .cons .nil .nil
  | @cons c _ _ _ head _ ih =>
    obtain rfl := head
    cases hc : Title.isSeparator c with
    | true =>
      rw [pieces, pieces, if_pos hc, if_pos hc]
      exact .cons .nil ih
    | false =>
      have hfree : ∀ d ∈ [c], Title.isSeparator d = false := List.forall_mem_singleton.2 hc
      exact hfront hfree hfree (Respaced.refl [c]) ih
  | run left right _ ih =>
    have hfree : ∀ {us : Text}, IsSoftRun isSpacing us → ∀ c ∈ us, Title.isSeparator c = false := fun hus c hc =>
      isSeparator_of_isSpacing (hus.2 c hc)
    exact hfront (hfree left) (hfree right) (.of_run left right) ih

/-- **The words of a text do not depend on its spacing.** -/
theorem words_congr : words t = words u := by
  -- said behind any text, since a character that is no spacing may go on with a word
  have hbehind : ∀ s : Text, words (s ++ t) = words (s ++ u) := by
    induction h with
    | nil => exact fun s => rfl
    | @cons c _ t u head _ ih =>
      obtain rfl := head
      intro s
      have hshift := ih (s ++ [c])
      rwa [List.append_assoc, List.append_assoc] at hshift
    | @run us vs t u left right _ ih =>
      intro s
      have hrun : ∀ {us : Text} (t : Text), IsSoftRun isSpacing us → words (s ++ (us ++ t)) = words s ++ words t := by
        intro us t hus
        obtain ⟨b, us, rfl⟩ := List.exists_cons_of_ne_nil hus.1
        obtain ⟨hb, hus⟩ := List.forall_mem_cons.1 hus.2
        rw [List.cons_append, words_append (isBlank_of_isSpacing hb),
          words_blank_append fun c hc => isBlank_of_isSpacing (hus c hc)]
      have htail := ih []
      rw [List.nil_append, List.nil_append] at htail
      rw [hrun t left, hrun u right, htail]
  exact hbehind []

theorem collapsed_congr : collapsed t = collapsed u := congrArg (joined [' ']) (words_congr h)

theorem isEmpty_congr : t.isEmpty = u.isEmpty := by
  rw [Bool.eq_iff_iff, List.isEmpty_iff, List.isEmpty_iff]
  exact Stretched.eq_nil_iff h

/-- Where the one text has no spacing, the other is the same. -/
theorem eq_of_not_isSpacing (ht : ∀ c ∈ t, isSpacing c = false) : t = u := by
  induction h with
  | nil => rfl
  | cons head _ ih => rw [head, ih (List.forall_mem_cons.1 ht).2]
  | run left =>
    obtain ⟨c, hc⟩ := List.exists_mem_of_ne_nil _ left.1
    exact absurd (left.2 c hc) (Bool.eq_false_iff.1 (ht c (List.mem_append_left _ hc)))

/-! ### Small letters -/

omit h in
/-- A blank is not seen by case, and has no other form. -/
theorem small_blank {c : Char} (hc : isBlank c = true) :
    isCaseIgnorable c = false ∧ isCased c = false ∧ ∀ before after, lowerBetween before c after = [c] := by
  have hplain := forall_blank (fun c => !isCaseIgnorable c && !isCased c && c != 'Σ' && c != 'İ' && smallLetter c == c)
    (by decide +kernel) hc
  simp only [Bool.and_eq_true, Bool.not_eq_true', bne_iff_ne, beq_iff_eq] at hplain
  obtain ⟨⟨⟨⟨hignored, hcased⟩, hsigma⟩, hdotted⟩, hsmall⟩ := hplain
  refine ⟨hignored, hcased, fun before after => ?_⟩
  rw [lowerBetween, if_neg hsigma, if_neg hdotted, hsmall]

omit h in
theorem startsCased_blank {c : Char} (hc : isBlank c = true) (t : Text) : startsCased (c :: t) = false := by
  rw [startsCased, List.dropWhile_cons, if_neg (Bool.eq_false_iff.1 (small_blank hc).1)]
  exact (small_blank hc).2.1

omit h in
theorem startsCased_cons (c : Char) (t : Text) :
    startsCased (c :: t) = if isCaseIgnorable c then startsCased t else isCased c := by
  rw [startsCased, List.dropWhile_cons]
  split <;> rfl

theorem startsCased_congr : startsCased t = startsCased u := by
  induction h with
  | nil => rfl
  | cons head _ ih => rw [head, startsCased_cons, startsCased_cons, ih]
  | run left right =>
    have hrun : ∀ {us : Text} (t : Text), IsSoftRun isSpacing us → startsCased (us ++ t) = false := by
      intro us t hus
      obtain ⟨b, us, rfl⟩ := List.exists_cons_of_ne_nil hus.1
      exact startsCased_blank (isBlank_of_isSpacing (hus.2 b List.mem_cons_self)) _
    rw [hrun _ left, hrun _ right]

omit h in
theorem lowerAfter_spacing {us : Text} (hus : ∀ c ∈ us, isSpacing c = true) (before t : Text) :
    lowerAfter before (us ++ t) = us ++ lowerAfter (us.reverse ++ before) t := by
  induction us generalizing before with
  | nil => rfl
  | cons c us ih =>
    obtain ⟨hc, hus⟩ := List.forall_mem_cons.1 hus
    rw [List.cons_append, lowerAfter, (small_blank (isBlank_of_isSpacing hc)).2.2, ih hus, List.reverse_cons,
      List.append_assoc]
    rfl

theorem lowerAfter_respaced {before before' : Text} (hbefore : startsCased before = startsCased before') :
    Respaced id (lowerAfter before t) (lowerAfter before' u) := by
  induction h generalizing before before' with
  | nil => exact .nil
  | @cons c _ t u head tail ih =>
    obtain rfl := head
    have hsmall : lowerBetween before c t = lowerBetween before' c u := by
      rw [lowerBetween, lowerBetween, hbefore, startsCased_congr tail]
    rw [lowerAfter, lowerAfter, hsmall]
    exact (Respaced.refl _).append (ih (by rw [startsCased_cons, startsCased_cons, hbefore]))
  | run left right _ ih =>
    have hrun : ∀ {us : Text} (before : Text), IsSoftRun isSpacing us → startsCased (us.reverse ++ before) = false := by
      intro us before hus
      obtain ⟨c, cs, hcs⟩ := List.exists_cons_of_ne_nil (fun hnil => hus.1 (List.reverse_eq_nil_iff.1 hnil))
      have hc : c ∈ us := List.mem_reverse.1 (hcs ▸ List.mem_cons_self)
      rw [hcs]
      exact startsCased_blank (isBlank_of_isSpacing (hus.2 c hc)) _
    rw [lowerAfter_spacing left.2, lowerAfter_spacing right.2]
    exact .run left right (ih (by rw [hrun _ left, hrun _ right]))

theorem lowercase_respaced : Respaced id t.lowercase u.lowercase := lowerAfter_respaced h rfl

end Text

/-! ## Titles and status words -/

theorem map_congr_of_respaced {α : Type} {f : Text → α} (hf : ∀ {t u : Text}, Respaced id t u → f t = f u)
    {ts us : List Text} (h : List.Forall₂ (Respaced id) ts us) : ts.map f = us.map f := by
  induction h with
  | nil => rfl
  | cons head _ ih => rw [List.map_cons, List.map_cons, hf head, ih]

section
variable {t u : Text} (h : Respaced id t u)
include h

theorem Title.normalize_congr : normalize t = normalize u := by
  have hplain : Respaced id (t.filter fun c => !isQuote c) (u.filter fun c => !isQuote c) := by
    refine Stretched.filter (fun _ _ => congrArg (!isQuote ·)) (fun c hc => ?_) h
    have hfree := Text.free_of_blank (t := [c]) (List.forall_mem_singleton.2 (isBlank_of_isSpacing hc))
    rw [hfree c List.mem_cons_self]
    rfl
  exact Text.collapsed_congr hplain

theorem Title.quotedIn_congr : quotedIn t = quotedIn u := by
  rw [quotedIn, ofAll, map_congr_of_respaced normalize_congr (Quote.inners_respaced h)]
  rfl

theorem Title.withoutFiller_congr : withoutFiller t = withoutFiller u :=
  normalize_congr (Vocabulary.possessive_spacingBlind.replaceAll [' ']
    (Vocabulary.fillerPhrase_spacingBlind.replaceAll [' '] h))

theorem Title.plainIn_congr : plainIn t = plainIn u := by
  have hjoin := Vocabulary.conjunction_spacingBlind.replaceAll [','] h
  exact congrArg (List.filter _) (map_congr_of_respaced withoutFiller_congr (Text.pieces_respaced hjoin))

theorem Status.ofCode?_congr : ofCode? t = ofCode? u := by
  have hunspaced : ∀ s : Status, ∀ c ∈ s.code, isSpacing c = false := by
    intro s c hc
    have hcode : (s.code.all fun c => !isSpacing c) = true := by cases s <;> decide
    simpa using List.all_eq_true.1 hcode c hc
  have hkey := Text.lowercase_respaced (Text.trim_respaced h)
  have hsame : (fun s : Status => s.code == t.trim.lowercase) = fun s => s.code == u.trim.lowercase := by
    funext s
    rw [Bool.eq_iff_iff, beq_iff_eq, beq_iff_eq]
    constructor
    · intro hcode
      exact hcode.trans (Text.eq_of_not_isSpacing hkey (hcode ▸ hunspaced s))
    · intro hcode
      exact hcode.trans (Text.eq_of_not_isSpacing hkey.symm (hcode ▸ hunspaced s))
  rw [ofCode?, hsame]
  rfl

/-- **A status word stands for one status in any spacing.** -/
theorem Status.ofWord_congr : ofWord t = ofWord u := by
  have hkey := Text.lowercase_respaced (Text.trim_respaced h)
  have hempty := Text.isEmpty_congr hkey
  rw [ofWord, ofWord?, ofWord, ofWord?]
  simp only [hempty, ofCode?_congr hkey, ofAlias?, Text.collapsed_congr hkey]

end

/-! ## Clauses -/

namespace Clause

theorem plain_respaced {ls ms : List Letter} (h : Respaced Letter.char ls ms) : Respaced id (plain ls) (plain ms) :=
  h.map_char

theorem windowAfter_respaced {stop : Pattern} (hstop : stop.SpacingBlind) {v w : Found} (h : v.Respaced w) :
    Respaced id (windowAfter stop v) (windowAfter stop w) := by
  have hfind := hstop.findAfter h
  rw [windowAfter, windowAfter]
  generalize stop.findAfter v = f? at hfind ⊢
  generalize stop.findAfter w = g? at hfind ⊢
  cases hfind with
  | none => exact plain_respaced h.after
  | some hs => exact plain_respaced hs.before

/-- Two windows with the words of a status, the same but for spacing. -/
def WindowsRespaced (x y : Text × Text) : Prop := Respaced id x.1 y.1 ∧ Respaced id x.2 y.2

theorem statusAfter_respaced {first first' : Option Text} (hfirst : Option.Rel (Respaced id) first first') {v w : Found}
    (h : v.Respaced w) : Option.Rel WindowsRespaced (statusAfter first v) (statusAfter first' w) := by
  have hfrom : ∀ {x y : Text}, Respaced id x y → Option.Rel WindowsRespaced (first.map (x, ·)) (first'.map (y, ·)) :=
    fun hxy => rel_map hfirst fun _ _ hword => ⟨hxy, hword⟩
  have hp := Vocabulary.pivot_spacingBlind.findAfter h
  have ha := Vocabulary.statusAlias_spacingBlind.findAfter h
  rw [statusAfter, statusAfter]
  generalize Vocabulary.pivot.findAfter v = p? at hp ⊢
  generalize Vocabulary.pivot.findAfter w = q? at hp ⊢
  cases hp with
  | none =>
    generalize Vocabulary.statusAlias.findAfter v = a? at ha ⊢
    generalize Vocabulary.statusAlias.findAfter w = b? at ha ⊢
    cases ha with
    | none => exact hfrom (plain_respaced h.after)
    | some ha => exact .some ⟨plain_respaced ha.before, ha.text⟩
  | @some p q hp =>
    have hb := Vocabulary.statusAlias_spacingBlind.findAfter hp
    simp only
    generalize Vocabulary.statusAlias.findAfter p = a? at hb ⊢
    generalize Vocabulary.statusAlias.findAfter q = b? at hb ⊢
    cases hb with
    | none => exact hfrom (plain_respaced hp.before)
    | some hb => exact .some ⟨plain_respaced hp.before, hb.text⟩

section
variable {t u : Text} (h : Respaced id t u)
include h

theorem verbWindow?_respaced {verb stop : Pattern} (hverb : verb.SpacingBlind) (hstop : stop.SpacingBlind) :
    Option.Rel (Respaced id) (verbWindow? verb stop t) (verbWindow? verb stop u) := by
  rw [verbWindow?_eq, verbWindow?_eq]
  exact rel_map (hverb.find rfl (Quote.letters_respaced h)) fun _ _ => windowAfter_respaced hstop

theorem statusWindow?_respaced : Option.Rel WindowsRespaced (statusWindow? t) (statusWindow? u) := by
  have hletters := Quote.letters_respaced h
  have hfirst : Option.Rel (Respaced id) ((Vocabulary.statusAlias.find none (Quote.letters t)).map Found.text)
      ((Vocabulary.statusAlias.find none (Quote.letters u)).map Found.text) :=
    rel_map (Vocabulary.statusAlias_spacingBlind.find rfl hletters) fun _ _ ha => ha.text
  have hverb := Vocabulary.statusVerb_spacingBlind.find (Eq.refl (touchesWord none)) hletters
  rw [statusWindow?_eq, statusWindow?_eq]
  generalize Vocabulary.statusVerb.find none (Quote.letters t) = f? at hverb ⊢
  generalize Vocabulary.statusVerb.find none (Quote.letters u) = g? at hverb ⊢
  cases hverb with
  | none => exact .none
  | some hv => exact statusAfter_respaced hfirst hv

theorem kind_congr : kind t = kind u := by
  have hletters := Quote.letters_respaced h
  rw [kind, kind, Vocabulary.statusVerb_spacingBlind.opensIn hletters,
    Vocabulary.statusAlias_spacingBlind.opensIn hletters, Vocabulary.addVerb_spacingBlind.opensIn hletters,
    Vocabulary.removeVerb_spacingBlind.opensIn hletters, Title.quotedIn_congr h]

theorem verbTitles_congr : verbTitles t = verbTitles u := by
  rw [verbTitles, Title.quotedIn_congr h, Title.plainIn_congr (Quote.withoutQuoted_respaced h), verbTitles]

theorem statusTitles_congr : statusTitles t = statusTitles u := by
  rw [statusTitles, Title.quotedIn_congr h, Title.plainIn_congr h, statusTitles]

theorem verbActions_congr {verb stop : Pattern} (hverb : verb.SpacingBlind) (hstop : stop.SpacingBlind)
    (write : Text → Action) : verbActions verb stop write t = verbActions verb stop write u := by
  have hwindow := verbWindow?_respaced h hverb hstop
  rw [verbActions, verbActions]
  generalize verbWindow? verb stop t = w? at hwindow ⊢
  generalize verbWindow? verb stop u = x? at hwindow ⊢
  cases hwindow with
  | none => rfl
  | some hw => rw [Option.map_some, Option.map_some, verbTitles_congr hw]

/-- **The actions of a clause do not depend on its spacing.** -/
theorem actions_congr : actions t = actions u := by
  rw [actions, actions, kind_congr h]
  cases kind u with
  | nothing => rfl
  | add => exact verbActions_congr h Vocabulary.addVerb_spacingBlind Vocabulary.addStop_spacingBlind .add
  | remove => exact verbActions_congr h Vocabulary.removeVerb_spacingBlind Vocabulary.removeStop_spacingBlind .remove
  | quotedTitles => exact congrArg (List.map Action.add) (Title.quotedIn_congr h)
  | statusChange =>
    have hwindow := statusWindow?_respaced h
    simp only
    generalize statusWindow? t = w? at hwindow ⊢
    generalize statusWindow? u = x? at hwindow ⊢
    cases hwindow with
    | none => rfl
    | some hw => simp only [Option.map_some, statusTitles_congr hw.1, Status.ofWord_congr hw.2]

/-- **The clauses** of the one instruction are those of the other. -/
theorem split_respaced : List.Forall₂ (Respaced id) (split t) (split u) := by
  have hcut : List.Forall₂ (Respaced id) (Vocabulary.delimiter.cut t) (Vocabulary.delimiter.cut u) :=
    TokensRespaced.cutTokens (Pattern.scan_respaced Vocabulary.delimiter_spacingBlind Letter.char rfl
      (Quote.letters_respaced h))
  rw [split, split]
  generalize Vocabulary.delimiter.cut t = ws at hcut ⊢
  generalize Vocabulary.delimiter.cut u = xs at hcut ⊢
  clear h
  induction hcut with
  | nil => exact .nil
  | @cons w x _ _ hclause _ ih =>
    have htrim := Text.trim_respaced hclause
    have hempty : w.trim.isEmpty = x.trim.isEmpty := Text.isEmpty_congr htrim
    rw [List.map_cons, List.map_cons, List.filter_cons, List.filter_cons, hempty]
    split
    · exact .cons htrim ih
    · exact ih

end
end Clause

/-- **Instructions that are the same but for spacing have one plan.** -/
theorem Plan.ofText_congr {t u : Text} (h : Respaced id t u) : ofText t = ofText u := by
  have hclauses := map_congr_of_respaced Clause.actions_congr (Clause.split_respaced h)
  rw [ofText, ofText, List.flatMap_def, List.flatMap_def, hclauses]

/-! ## One space for each run -/

namespace Text

/-- The text with one space in the place of each run of blanks that end no line. -/
def respaced : Text → Text
  | [] => []
  | c :: t => if isSpacing c then ' ' :: respaced (t.dropWhile isSpacing) else c :: respaced t
termination_by t => t.length
decreasing_by
  · exact Nat.lt_succ_of_le (List.dropWhile_suffix isSpacing).length_le
  · exact Nat.lt_succ_self _

theorem respaced_respaced (t : Text) : Respaced id t t.respaced := by
  fun_induction respaced t with
  | case1 => exact .nil
  | case2 c t hc ih =>
    have hrun : IsSoftRun isSpacing (c :: t.takeWhile isSpacing) :=
      ⟨List.cons_ne_nil _ _, List.forall_mem_cons.2 ⟨hc, List.all_eq_true.1 List.all_takeWhile⟩⟩
    have hone : IsSoftRun isSpacing [' '] := ⟨List.cons_ne_nil _ _, List.forall_mem_singleton.2 (by decide)⟩
    have hboth := Stretched.run (R := Eq) hrun hone ih
    rwa [List.cons_append, List.takeWhile_append_dropWhile] at hboth
  | case3 c t _ ih => exact .cons rfl ih

example : respaced "add\t\t“La  Jetée”\u00a0\n and  Up ".toList = "add “La Jetée” \n and Up ".toList := by decide +kernel

end Text

/-- **Interpretation does not see the amount and the kind of spacing**: with one space for each run of blanks that end no
line, an instruction has the plan it had. -/
theorem Plan.ofText_respaced (instruction : Text) : ofText instruction.respaced = ofText instruction :=
  (ofText_congr (Text.respaced_respaced instruction)).symm

end WatchList
