import WatchList.Proofs.Margins
/-!
# Plain titles

A clean title is **plain** when it can stand in a list without quotes: it has no comma, period or semicolon, no
conjunction, no bare possessive and no mention of the list (`Title.Plain`).  Plain titles written with commas, between
two spaces, are read as they are (`Title.plainIn_joined`).

Reading drops mentions of the list, whose pattern goes over blanks.  It does not see the space behind a title
(`Vocabulary.fillerPhrase_trims`), so it finds in a fragment what it finds in the title: nothing.
-/
namespace WatchList
namespace Pattern

/-! ## A space behind a text -/

/-- From a text that does not end in a blank the pattern does not see whether a space and `rest` follow. -/
def Blind (p : Pattern) (rest : Text) : Prop :=
  ∀ before s, s.getLast?.any isBlank = false → p before (s ++ ' ' :: rest) = p before s

section
variable {rest : Text} (hrest : rest.head?.any isBlank = false)
include hrest

theorem word_blind {table : List Text} (ht : ∀ w ∈ table, endsBefore rest w = true) : (word table).Blind rest := by
  intro before s hs
  have hwhole : ∀ w ∈ table, wholeReach (s ++ ' ' :: rest) w = wholeReach s w := by
    intro w hw
    rw [wholeReach, wholeReach, reach_append_space hrest (ht w hw) hs]
    cases hn : reach w s with
    | none => rfl
    | some n =>
      have hedge : touchesWord ((s ++ ' ' :: rest).drop n).head? = touchesWord (s.drop n).head? := by
        rw [List.drop_append_of_le_length (reach_le hn)]
        cases s.drop n <;> rfl
      simp only [Option.filter, hedge]
  exact word_congr hwhole before

end

section
variable {p q r : Pattern}

theorem andThen_assoc : (p.andThen q).andThen r = p.andThen (q.andThen r) := by
  funext before t
  unfold Pattern.andThen
  cases p before t with
  | none => rfl
  | some n =>
    rw [Option.bind_some, Option.bind_some]
    cases q ((t.take n).getLast?.or before) (t.drop n) with
    | none => rfl
    | some m =>
      rw [Option.map_some, Option.bind_some, Option.bind_some, List.take_add, List.getLast?_append, Option.or_assoc,
        List.drop_drop, Option.map_map]
      congr 1
      funext k
      exact Nat.add_assoc n m k

theorem Within.andThen (hp : p.Within) (hq : q.Within) : (p.andThen q).Within := by
  intro before t n h
  obtain ⟨m, hm, h⟩ := Option.bind_eq_some_iff.1 h
  obtain ⟨k, hk, rfl⟩ := Option.map_eq_some_iff.1 h
  have hle := hp before t m hm
  have hrest := hq _ _ k hk
  rw [List.length_drop] at hrest
  omega

theorem Within.perhaps (hp : p.Within) : (perhaps p).Within :=
  hp.orElse fun _ _ n h => by
    obtain rfl := Option.some.inj h
    exact Nat.zero_le _

theorem blanks_within : blanks.Within := by
  intro before t n h
  have hle := blankRun_le t
  unfold blanks at h
  split at h
  · cases h
  · obtain rfl := Option.some.inj h
    omega

theorem Skips.andThen {b : Char} (hp : p.Skips b) : (p.andThen q).Skips b := by
  intro before v
  rw [Pattern.andThen, hp before v]
  rfl

theorem word_begins {b : Char} (hb : isWordChar b = false) (table : List Text) (t : Text) :
    word table (some b) t = word table none t := by
  rw [word, word, touchesWord, Option.any_some, hb]
  rfl

theorem andThen_begins {b : Char} (hp : ∀ t, p (some b) t = p none t) (hq : ∀ t, q (some b) t = q none t) (t : Text) :
    (p.andThen q) (some b) t = (p.andThen q) none t := by
  rw [Pattern.andThen, Pattern.andThen, hp]
  congr 1
  funext n
  cases (t.take n).getLast? with
  | none => rw [Option.none_or, Option.none_or, hq]
  | some c => rfl

theorem word_eq_none {table : List Text} {before : Option Char} {t : Text} (h : ∀ w ∈ table, reach w t = none) :
    word table before t = none := by
  unfold word
  split
  · rfl
  · rw [List.findSome?_eq_none_iff]
    intro w hw
    rw [wholeReach, h w hw]
    rfl

/-- A phrase that begins with a letter takes nothing where there is none. -/
theorem reach_eq_none {w : Text} (hw : w.head?.any (· != ' ') = true) (v : Text) :
    reach w [] = none ∧ reach w (' ' :: v) = none := by
  cases w with
  | nil => cases hw
  | cons a w =>
    have ha : a ≠ ' ' := by simpa using hw
    have hspace : foldLetter ' ' ≠ a := fun h => ha (h.symm.trans (by decide))
    rw [reach_letter ha, if_neg hspace]
    exact ⟨by simp [reach, ha], rfl⟩

end

/-- A table of phrases minds blanks if none of them begins with a space or goes on with `rest`. -/
theorem word_spaced {rest : Text} (hrest : rest.head?.any isBlank = false) {table : List Text}
    (ht : ∀ w ∈ table, w.head?.any (· != ' ') = true ∧ endsBefore rest w = true) : (word table).Spaced rest where
  within := word_within table
  skips _ v := word_eq_none fun w hw => (reach_eq_none (ht w hw).1 v).2
  begins := word_begins rfl table
  hides before s _ hs := word_blind hrest (fun w hw => (ht w hw).2) before s hs

end Pattern

namespace Vocabulary

open Pattern (blanks perhaps phrase)

theorem worded_tables : ∀ table ∈ [possessives ++ listArticles, listNouns, possessives, conjunctions], ∀ w ∈ table,
    Pattern.Worded w ∧ w.head?.any (· != ' ') = true := by decide +kernel

/-- A table of words takes nothing of the blanks at the end of a text, and nothing of nothing. -/
theorem words_trim (table : List Text) (h : table ∈ [possessives ++ listArticles, listNouns, possessives, conjunctions]) :
    (Pattern.word table).Trims ∧ ∀ before, Pattern.word table before [] = none := by
  have hwords := worded_tables table h
  exact ⟨Pattern.word_trims fun w hw => (hwords w hw).1,
    fun _ => Pattern.word_eq_none fun w hw => (Pattern.reach_eq_none (hwords w hw).2 []).1⟩

/-- A word for whose list it is, blanks, a word for the list, and perhaps more blanks and a phrase. -/
theorem fillerPhrase_eq : fillerPhrase = (Pattern.word (possessives ++ listArticles)).andThen (blanks.andThen
    ((Pattern.word listNouns).andThen (perhaps (blanks.andThen (phrase "d'envie".toList))))) := Pattern.andThen_assoc

theorem fillerPhrase_within : fillerPhrase.Within := by
  rw [fillerPhrase_eq]
  have henvie : (phrase "d'envie".toList).Within := fun _ _ _ h => Pattern.reach_le h
  exact (Pattern.word_within _).andThen (Pattern.blanks_within.andThen
    ((Pattern.word_within _).andThen (Pattern.blanks_within.andThen henvie).perhaps))

theorem fillerPhrase_trims : fillerPhrase.Trims := by
  obtain ⟨howner, -⟩ := words_trim (possessives ++ listArticles) (by simp)
  obtain ⟨hnoun, hnone⟩ := words_trim listNouns (by simp)
  have henvie : (blanks.andThen (phrase "d'envie".toList)).Trims :=
    Pattern.blanks_andThen_trims (Pattern.phrase_trims (by decide)) fun _ => rfl
  rw [fillerPhrase_eq]
  refine howner.andThen (Pattern.word_within _) (Pattern.blanks_andThen_trims ?_ fun before => ?_)
  · exact hnoun.andThen (Pattern.word_within _) henvie.perhaps
  · rw [Pattern.andThen, hnone]
    rfl

theorem fillerPhrase_spaced : fillerPhrase.Spaced [] where
  within := fillerPhrase_within
  skips := by
    rw [fillerPhrase_eq]
    refine Pattern.Skips.andThen fun before v => Pattern.word_eq_none fun w hw => ?_
    exact (Pattern.reach_eq_none (worded_tables _ (by simp) w hw).2 v).2
  begins := by
    rw [fillerPhrase_eq]
    exact Pattern.andThen_begins (Pattern.word_begins rfl _) (Pattern.andThen_begins (fun _ => rfl)
      (Pattern.andThen_begins (Pattern.word_begins rfl _) fun _ => rfl))
  hides before s _ _ := fillerPhrase_trims before s [' '] Pattern.blank_space

theorem properWords_tables : ∀ table ∈ [addVerbs, removeVerbs, statusVerbs, pivots, addStops, conjunctions, possessives],
    Pattern.ProperWords table := by decide +kernel

/-- A table of words sees neither across a comma nor across a space. -/
theorem words_spaced (table : List Text)
    (h : table ∈ [addVerbs, removeVerbs, statusVerbs, pivots, addStops, conjunctions, possessives]) (rest : Text) :
    (Pattern.word table).Spaced rest ∧ ∀ b, isWordChar b = false → (Pattern.word table).Barrier b ∧
      (Pattern.word table).Skips b := by
  have hwords := properWords_tables table h
  exact ⟨hwords.keepsToWords.spaced (Pattern.word_within table) (hwords.barrier rfl).2 rest, fun b hb => hwords.barrier hb⟩

/-- A table of words is scanned apart on both sides of a space. -/
theorem words_space (table : List Text)
    (h : table ∈ [addVerbs, removeVerbs, statusVerbs, pivots, addStops, conjunctions, possessives]) :
    (Pattern.word table).Barrier ' ' ∧ (Pattern.word table).Skips ' ' := (words_spaced table h []).2 ' ' (by decide)

/-- What a table of words hits in no title it does not hit in a list of them. -/
theorem words_silent_joined (table : List Text)
    (h : table ∈ [addVerbs, removeVerbs, statusVerbs, pivots, addStops, conjunctions, possessives]) {ts : List Text}
    (hts : ∀ t ∈ ts, (Pattern.word table).occursIn t = false) :
    (Pattern.word table).Silent (Text.joined ", ".toList ts) := by
  obtain ⟨hspaced, hbarrier⟩ := words_spaced table h []
  obtain ⟨hcomma, hskips⟩ := hbarrier ',' (by decide)
  exact hspaced.silent_joined hcomma hskips fun t ht => Pattern.silent_of_occursIn (hts t ht)

end Vocabulary

/-! ## Clean titles -/

namespace Text

theorem joined_ne_nil {sep w : Text} {ws : List Text} (hmem : w ∈ ws) (hne : w ≠ []) : joined sep ws ≠ [] := by
  obtain ⟨c, s, rfl⟩ := List.exists_cons_of_ne_nil hne
  exact List.ne_nil_of_mem (mem_joined_of_mem hmem List.mem_cons_self)

/-- What is joined from texts that do not end in blanks does not end in a blank. -/
theorem isBlank_last_joined {sep : Text} {ws : List Text} (h : ∀ w ∈ ws, w ≠ [] ∧ w.getLast?.any isBlank = false) :
    (joined sep ws).getLast?.any isBlank = false := by
  fun_induction joined sep ws with
  | case1 => rfl
  | case2 w => exact (h w List.mem_cons_self).2
  | case3 w ws hmore ih =>
    obtain ⟨-, hws⟩ := List.forall_mem_cons.1 h
    obtain ⟨v, vs, rfl⟩ := List.exists_cons_of_ne_nil hmore
    have hne : joined sep (v :: vs) ≠ [] := joined_ne_nil List.mem_cons_self (hws v List.mem_cons_self).1
    rw [getLast?_append_of_ne_nil _ hne]
    exact ih hws

end Text

namespace Title

theorem normalize_around {u v : Text} (hu : ∀ c ∈ u, isBlank c = true) (hv : ∀ c ∈ v, isBlank c = true) (t : Text) :
    normalize (u ++ (t ++ v)) = normalize t := by
  have hkeep : ∀ {s : Text}, (∀ c ∈ s, isBlank c = true) → s.filter (fun c => !isQuote c) = s := fun hs =>
    List.filter_eq_self.2 fun c hc => by rw [Text.free_of_blank hs c hc]; rfl
  rw [normalize, List.filter_append, List.filter_append, hkeep hu, hkeep hv, Text.collapsed, Text.words_blank_append hu,
    Text.words_append_blank _ hv]
  rfl

namespace Clean

variable {t : Text} (h : Clean t)
include h

theorem exists_words : ∃ ws, t = Text.joined [' '] ws ∧ ∀ w ∈ ws, Text.IsWord w :=
  ⟨_, h.normal.symm, fun _ hw => Text.isWord_of_mem_words hw⟩

theorem isBlank_last : t.getLast?.any isBlank = false := by
  obtain ⟨ws, rfl, hws⟩ := h.exists_words
  refine Text.isBlank_last_joined fun w hw => ⟨(hws w hw).1, ?_⟩
  rw [List.getLast?_eq_some_getLast (hws w hw).1, Option.any_some]
  exact (hws w hw).2 _ (List.getLast_mem _)

/-- The only blanks in a clean title are spaces. -/
theorem eq_space {c : Char} (hc : c ∈ t) (hblank : isBlank c = true) : c = ' ' := by
  obtain ⟨ws, rfl, hws⟩ := h.exists_words
  rcases Text.mem_joined hc with hc | ⟨w, hw, hc⟩
  · exact List.mem_singleton.1 hc
  · rw [(hws w hw).2 c hc] at hblank
    cases hblank

theorem free : ∀ c ∈ t, isQuote c = false := free_of_normal h.normal

end Clean

/-! ## Plain titles -/

/-- The title can stand in a list without quotes: there is nothing in it that parts titles or clauses or is dropped. -/
structure Plain (t : Text) : Prop where
  clean : Clean t
  unparted : ',' ∉ t ∧ '.' ∉ t ∧ ';' ∉ t
  unjoined : Vocabulary.conjunction.occursIn t = false
  unowned : Vocabulary.possessive.occursIn t = false
  unlisted : Vocabulary.fillerPhrase.occursIn t = false

instance : DecidablePred Plain := fun t =>
  decidable_of_iff (Clean t ∧ (',' ∉ t ∧ '.' ∉ t ∧ ';' ∉ t) ∧ Vocabulary.conjunction.occursIn t = false ∧
    Vocabulary.possessive.occursIn t = false ∧ Vocabulary.fillerPhrase.occursIn t = false)
    ⟨fun ⟨h, hm, hc, hp, hf⟩ => ⟨h, hm, hc, hp, hf⟩,
      fun h => ⟨h.clean, h.unparted, h.unjoined, h.unowned, h.unlisted⟩⟩

theorem withoutFiller_of_silent {fragment : Text} (hphrase : Vocabulary.fillerPhrase.Silent fragment)
    (howner : Vocabulary.possessive.Silent fragment) : withoutFiller fragment = normalize fragment := by
  rw [withoutFiller, hphrase.replaceAll_eq, howner.replaceAll_eq]

/-- Blanks around a fragment make no difference to the title in it. -/
theorem withoutFiller_space (t : Text) : withoutFiller (' ' :: t) = withoutFiller t := by
  have howner : Vocabulary.possessive.Spaced [] := (Vocabulary.words_spaced Vocabulary.possessives (by simp) []).1
  have hleft := normalize_around Pattern.blank_space (List.forall_mem_nil _)
    (Vocabulary.possessive.replaceAll [' '] (Vocabulary.fillerPhrase.replaceAll [' '] t))
  rw [List.append_nil] at hleft
  rw [withoutFiller, Vocabulary.fillerPhrase_spaced.replaceAll_space, howner.replaceAll_space]
  exact hleft

theorem withoutFiller_append_blanks (t : Text) {v : Text} (hv : ∀ c ∈ v, isBlank c = true) :
    withoutFiller (t ++ v) = withoutFiller t := by
  have howner : Vocabulary.possessive.Trims := (Vocabulary.words_trim Vocabulary.possessives (by simp)).1
  have howns : Vocabulary.possessive.Within := Pattern.word_within _
  rw [withoutFiller, Vocabulary.fillerPhrase_trims.replaceAll_append Vocabulary.fillerPhrase_within _ _ hv,
    howner.replaceAll_append howns _ _ hv]
  exact normalize_around (List.forall_mem_nil _) hv _

namespace Plain

variable {t : Text} (h : Plain t)
include h

/-- A plain title in a fragment of a list is read as it is. -/
theorem withoutFiller_eq : withoutFiller (' ' :: t) = t ∧ withoutFiller (' ' :: (t ++ [' '])) = t := by
  have hbare : withoutFiller t = t :=
    (withoutFiller_of_silent (Pattern.silent_of_occursIn h.unlisted) (Pattern.silent_of_occursIn h.unowned)).trans
      h.clean.normal
  rw [withoutFiller_space, withoutFiller_space, withoutFiller_append_blanks _ Pattern.blank_space]
  exact ⟨hbare, hbare⟩

theorem unseparated : ∀ c ∈ t, isSeparator c = false := by
  intro c hc
  have hcomma : c ≠ ',' := fun heq => h.unparted.1 (heq ▸ hc)
  have hline : c ≠ '\n' := by
    rintro rfl
    exact absurd (h.clean.eq_space hc (by decide)) (by decide)
  rw [isSeparator, beq_eq_false_iff_ne.2 hcomma, beq_eq_false_iff_ne.2 hline]
  rfl

end Plain

/-- The fragments of a list, each with a title and its spaces. -/
theorem map_withoutFiller_pieces {ts : List Text} (hne : ts ≠ []) (h : ∀ t ∈ ts, Plain t) :
    (Text.pieces isSeparator (' ' :: (Text.joined ", ".toList ts ++ [' ']))).map withoutFiller = ts := by
  have hfree : ∀ {s : Text}, (∀ c ∈ s, isSeparator c = false) → ∀ c ∈ ' ' :: s, isSeparator c = false :=
    fun hs => List.forall_mem_cons.2 ⟨rfl, hs⟩
  fun_induction Text.joined ", ".toList ts with
  | case1 => exact absurd rfl hne
  | case2 t =>
    have ht := h t List.mem_cons_self
    rw [Text.pieces_of_free (hfree fun c hc => ?_), List.map_singleton, ht.withoutFiller_eq.2]
    rcases List.mem_append.1 hc with hc | hc
    · exact ht.unseparated c hc
    · rw [List.mem_singleton.1 hc]
      rfl
  | case3 t ts hmore ih =>
    obtain ⟨ht, hts⟩ := List.forall_mem_cons.1 h
    have hshape : ' ' :: (t ++ ", ".toList ++ Text.joined ", ".toList ts ++ [' ']) =
        (' ' :: t) ++ ',' :: (' ' :: (Text.joined ", ".toList ts ++ [' '])) := by simp
    rw [hshape, Text.pieces_append rfl, Text.pieces_of_free (hfree ht.unseparated), List.map_append, ih hmore hts,
      List.map_singleton, ht.withoutFiller_eq.1]
    rfl

section
variable {ts : List Text} (h : ∀ t ∈ ts, Plain t)
include h

theorem isBlank_last_list : (Text.joined ", ".toList ts).getLast?.any isBlank = false :=
  Text.isBlank_last_joined fun t ht => ⟨(h t ht).clean.named, (h t ht).clean.isBlank_last⟩

theorem free_list : ∀ c ∈ Text.joined ", ".toList ts, isQuote c = false := by
  intro c hc
  rcases Text.mem_joined hc with hc | ⟨t, ht, hc⟩
  · exact Quote.free_of_any (t := ", ".toList) (by decide) c hc
  · exact (h t ht).clean.free c hc

/-- **Plain titles in a list are read as they are.** -/
theorem plainIn_joined (hne : ts ≠ []) : plainIn (' ' :: (Text.joined ", ".toList ts ++ [' '])) = ts := by
  have hspaced := (Vocabulary.words_spaced Vocabulary.conjunctions (by simp) []).1
  have hsilent := Vocabulary.words_silent_joined Vocabulary.conjunctions (by simp) fun t ht => (h t ht).unjoined
  have hlist : Vocabulary.conjunction.Silent (' ' :: (Text.joined ", ".toList ts ++ [' '])) :=
    hspaced.silent_between hsilent (isBlank_last_list h)
  rw [plainIn, hlist.replaceAll_eq, map_withoutFiller_pieces hne h]
  exact List.filter_eq_self.2 fun t ht => by simpa using (h t ht).clean.named

end

end Title
end WatchList
