import WatchList.Proofs.PlainTitles
import WatchList.Proofs.Recognition
import WatchList.Proofs.Walks
/-!
# Mentions of the list

A mention of the list is a word for whose list it is and, in the same strand, the words for a list right behind it
(`Vocabulary.mentions`).  The pattern for such phrases has a hit exactly where there is a mention
(`Vocabulary.occursIn_fillerPhrase`): how a phrase goes on behind its noun makes a hit longer, and makes none.

What the pattern takes begins and ends with a word (`Vocabulary.fillerPhrase_takesWords`), so that a text is scanned for
mentions run by run.  At a run everything is decided by the words of its strand (`Vocabulary.fillerPhrase_at_run`).
-/
namespace WatchList

open Text (IsRun lead strands words isBreak)

namespace Text

/-- A text that begins with neither a word nor a blank begins no strand. -/
theorem lead_eq_nil {t : Text} (hblank : t.head?.any isBlank = false) (h : touchesWord t.head? = false) :
    lead t = [] := by
  obtain rfl | ⟨c, s, rfl, hc⟩ := eq_nil_or_cons_of_edge h
  · rfl
  · have hbreak : isBreak c = true := by
      have hb : isBlank c = false := hblank
      rw [isBreak, hc, hb]
      rfl
    rw [lead, strands_break hbreak]
    rfl

/-- In front of an edge a text without breaks goes to the first strand of what follows. -/
theorem lead_append {m v : Text} (hm : ∀ c ∈ m, isBreak c = false) (hv : touchesWord v.head? = false) :
    lead (m ++ v) = words m ++ lead v := by
  rw [lead, strands_append (.inr hv), strands_of_unbroken hm, lead]
  obtain ⟨g, gs, hg⟩ := List.exists_cons_of_ne_nil (strands_ne_nil v)
  rw [hg]
  rfl

end Text

namespace Pattern

/-! ## Phrases and words -/

/-- Letters in front of a phrase take as many characters. -/
theorem reach_letters {w v : Text} (hw : ' ' ∉ w) (hv : v.map foldLetter = w) (n t : Text) :
    reach (w ++ n) (v ++ t) = (reach n t).map (v.length + ·) := by
  induction v generalizing w with
  | nil =>
    obtain rfl := hv
    simp
  | cons c v ih =>
    obtain rfl := hv
    rw [List.map_cons, List.mem_cons, not_or] at hw
    rw [List.map_cons, List.cons_append, List.cons_append, reach_letter (Ne.symm hw.1), if_pos rfl, ih hw.2 rfl,
      Option.map_map]
    congr 1
    funext k
    rw [Function.comp, List.length_cons]
    omega

/-- What a phrase takes ends with the last character of the phrase, in some casing. -/
theorem getLast?_of_reach {w t : Text} {n : Nat} (h : reach w t = some n) {a : Char} (ha : w.getLast? = some a)
    (hsp : a ≠ ' ') : ∃ c, (t.take n).getLast? = some c ∧ foldLetter c = a := by
  induction w generalizing t n with
  | nil => cases ha
  | cons b w ih =>
    obtain ⟨u, v, k, rfl, rfl, hk, hstep⟩ := exists_of_reach_cons h
    rw [List.take_length_add_append, List.getLast?_append]
    cases w with
    | nil =>
      obtain rfl := Option.some.inj ha
      obtain rfl := Option.some.inj hk
      obtain ⟨rfl, -⟩ | ⟨-, c, rfl, hc⟩ := hstep
      · exact absurd rfl hsp
      · exact ⟨c, rfl, hc⟩
    | cons d w =>
      rw [List.getLast?_cons_cons] at ha
      obtain ⟨c, hlast, hc⟩ := ih hk ha
      exact ⟨c, by rw [hlast]; rfl, hc⟩

/-- The words of a phrase are proper words, one space apart. -/
structure ProperPhrase (n : Text) : Prop where
  named : words n ≠ []
  spaced : n.all (fun a => isWordChar a || isBlank a) = true
  joined : Text.joined [' '] (words n) = n

instance (n : Text) : Decidable (ProperPhrase n) :=
  decidable_of_iff (words n ≠ [] ∧ n.all (fun a => isWordChar a || isBlank a) = true ∧
    Text.joined [' '] (words n) = n) ⟨fun ⟨h, h', h''⟩ => ⟨h, h', h''⟩, fun h => ⟨h.named, h.spaced, h.joined⟩⟩

theorem ProperPhrase.unbroken {n t : Text} (hn : ProperPhrase n) {k : Nat} (h : reach n t = some k) :
    ∀ c ∈ t.take k, isBreak c = false := by
  intro c hc
  have hwhole : reach n (t.take k) = some (t.take k).length := by
    rw [reach_take h, List.length_take, Nat.min_eq_left (reach_le h)]
  cases hblank : isBlank c with
  | true => exact Text.isBreak_of_blank hblank
  | false =>
    have hletter := List.all_eq_true.1 hn.spaced _ (mem_of_reach hwhole hc hblank)
    rw [isBlank_foldLetter, hblank, Bool.or_false, isWordChar_foldLetter] at hletter
    exact Text.isBreak_of_word hletter

/-- **Where a phrase stands, its words are the next ones of the strand.** -/
theorem ProperPhrase.prefix_of_wholeReach {n t : Text} (hn : ProperPhrase n) {k : Nat} (h : wholeReach t n = some k) :
    words n <+: (lead t).map (List.map foldLetter) := by
  obtain ⟨hreach, hedge⟩ := Option.filter_eq_some_iff.1 h
  have hafter : touchesWord (t.drop k).head? = false := by simpa using hedge
  have hwords := words_append_reach hreach []
  rw [List.nil_append, List.nil_append, Text.words_map isBlank_foldLetter] at hwords
  rw [← List.take_append_drop k t, Text.lead_append (hn.unbroken hreach) hafter, List.map_append, hwords]
  exact List.prefix_append _ _

theorem wholeReach_of_prefix {ws : List Text} (hws : ∀ w ∈ ws, ' ' ∉ w) (hne : ws ≠ []) {t : Text}
    (hblank : t.head?.any isBlank = false) (h : ws <+: (lead t).map (List.map foldLetter)) :
    (wholeReach t (Text.joined [' '] ws)).isSome = true := by
  induction ws generalizing t with
  | nil => exact absurd rfl hne
  | cons w ws ih =>
    cases hhead : touchesWord t.head? with
    | false =>
      rw [Text.lead_eq_nil hblank hhead] at h
      exact absurd (List.prefix_nil.1 h) hne
    | true =>
      obtain ⟨v, r, rfl, hv, hr⟩ := Text.exists_run_front hhead
      obtain ⟨hw, hmore⟩ := List.forall_mem_cons.1 hws
      rw [Text.lead_run hv hr, List.map_cons, List.cons_prefix_cons] at h
      obtain ⟨rfl, h⟩ := h
      cases ws with
      | nil =>
        have hreach := reach_letters hw rfl [] r
        rw [List.append_nil] at hreach
        rw [Text.joined, wholeReach, hreach]
        simp [reach, Option.filter, hr]
      | cons w' ws =>
        obtain ⟨b, s, rfl, hb, hs⟩ := exists_run r
        rw [Text.lead_blanks hb] at h
        have hbne : b ≠ [] := by
          rintro rfl
          rw [Text.lead_eq_nil hs hr] at h
          exact absurd (List.prefix_nil.1 h) (List.cons_ne_nil w' ws)
        obtain ⟨n, hn⟩ := Option.isSome_iff_exists.1 (ih hmore (List.cons_ne_nil w' ws) hs h)
        obtain ⟨hreach, hedge⟩ := Option.filter_eq_some_iff.1 hn
        rw [Text.joined, List.append_assoc, List.singleton_append, wholeReach, reach_letters hw rfl, reach_space hb hs,
          if_neg hbne, hreach]
        · simpa [Option.filter, List.drop_append] using hedge
        · exact List.cons_ne_nil w' ws

/-! ## Patterns in a row -/

section
variable {p q : Pattern}

theorem isSome_andThen_perhaps (before : Option Char) (t : Text) :
    ((p.andThen (perhaps q)) before t).isSome = (p before t).isSome := by
  unfold Pattern.andThen Pattern.perhaps Pattern.orElse
  cases p before t with
  | none => rfl
  | some n => cases h : q ((t.take n).getLast?.or before) (t.drop n) <;> simp [h]

/-- With or without what may follow. -/
theorem of_andThen_perhaps {before : Option Char} {t : Text} {n : Nat} (h : (p.andThen (perhaps q)) before t = some n) :
    p before t = some n ∨ (p.andThen q) before t = some n := by
  obtain ⟨m, hm, hrest⟩ := Option.bind_eq_some_iff.1 h
  obtain ⟨k, hk, rfl⟩ := Option.map_eq_some_iff.1 hrest
  rcases Option.or_eq_some_iff.1 hk with hk | ⟨-, hk⟩
  · exact .inr (Option.bind_eq_some_iff.2 ⟨m, hm, Option.map_eq_some_iff.2 ⟨k, hk, rfl⟩⟩)
  · obtain rfl := Option.some.inj hk
    exact .inl hm

/-- What the pattern takes is not empty and ends with a word character. -/
def EndsInWord (p : Pattern) : Prop :=
  ∀ before t n, p before t = some n → 0 < n ∧ touchesWord (t.take n).getLast? = true

theorem EndsInWord.andThen (hq : q.EndsInWord) : (p.andThen q).EndsInWord := by
  intro before t n h
  obtain ⟨m, -, h⟩ := Option.bind_eq_some_iff.1 h
  obtain ⟨k, hk, rfl⟩ := Option.map_eq_some_iff.1 h
  obtain ⟨hpos, hlast⟩ := hq _ _ _ hk
  refine ⟨Nat.add_pos_right m hpos, ?_⟩
  rw [List.take_add, List.getLast?_append]
  cases hsome : ((t.drop m).take k).getLast? with
  | none => rw [hsome] at hlast; cases hlast
  | some c => rwa [hsome] at hlast

theorem EndsInWord.perhaps (hp : p.EndsInWord) (hq : q.EndsInWord) : (p.andThen (perhaps q)).EndsInWord := by
  intro before t n h
  rcases of_andThen_perhaps h with h | h
  · exact hp _ _ _ h
  · exact hq.andThen _ _ _ h

theorem phrase_endsInWord {w : Text} (hw : touchesWord w.getLast? = true) : (phrase w).EndsInWord := by
  intro before t n h
  cases ha : w.getLast? with
  | none => rw [ha] at hw; cases hw
  | some a =>
    rw [ha] at hw
    have hword : isWordChar a = true := hw
    have hsp : a ≠ ' ' := by
      rintro rfl
      exact absurd hword (by decide)
    obtain ⟨c, hlast, rfl⟩ := getLast?_of_reach h ha hsp
    rw [isWordChar_foldLetter] at hword
    refine ⟨Nat.pos_of_ne_zero ?_, by rw [hlast]; exact hword⟩
    rintro rfl
    cases hlast

theorem word_endsInWord {table : List Text} (ht : ∀ w ∈ table, touchesWord w.getLast? = true) :
    (word table).EndsInWord := by
  intro before t n h
  unfold word at h
  split at h
  · cases h
  · obtain ⟨w, hw, hwhole⟩ := List.exists_of_findSome?_eq_some h
    exact phrase_endsInWord (ht w hw) before _ _ (Option.filter_eq_some_iff.1 hwhole).1

/-- What begins with a word and ends with one takes words, whatever is between. -/
theorem TakesWords.andThen (hp : p.TakesWords) (hq : q.Within) (hends : q.EndsInWord) : (p.andThen q).TakesWords where
  within := hp.within.andThen hq
  starts h := by
    obtain ⟨m, hm, h⟩ := Option.bind_eq_some_iff.1 h
    obtain ⟨k, -, rfl⟩ := Option.map_eq_some_iff.1 h
    obtain ⟨hpos, hplace⟩ := hp.starts hm
    exact ⟨Nat.add_pos_left hpos k, hplace⟩
  ends h := (hends.andThen _ _ _ h).2
  begins hbefore t := by
    rw [Pattern.andThen, Pattern.andThen, hp.begins hbefore]
    cases hn : p none t with
    | none => rfl
    | some n =>
      have hlast := hp.ends hn
      cases hsome : (t.take n).getLast? with
      | none => rw [hsome] at hlast; cases hlast
      | some c => simp only [Option.bind_some, hsome, Option.some_or]

end

end Pattern

/-! ## Mentions -/

namespace Vocabulary

open Pattern (blanks perhaps phrase ProperPhrase)

/-- The words that a mention of the list begins with. -/
def owners : List Text := possessives ++ listArticles

/-- The words begin, in some casing, with words for a list. -/
def namesList (g : List Text) : Bool := listNouns.any fun n => (words n).isPrefixOf (g.map (List.map foldLetter))

/-- Somewhere in the words a list is named right behind a word for whose list it is. -/
def mentions : List Text → Bool
  | [] => false
  | w :: g => owners.contains (w.map foldLetter) && namesList g || mentions g

theorem properWords_owners : Pattern.ProperWords owners := by decide +kernel

theorem properPhrase_listNouns : ∀ n ∈ listNouns, ProperPhrase n ∧ (∀ w ∈ words n, ' ' ∉ w) ∧
    touchesWord n.getLast? = true := by decide +kernel

theorem namesList_iff {g : List Text} :
    namesList g = true ↔ ∃ n ∈ listNouns, words n <+: g.map (List.map foldLetter) := by
  simp only [namesList, List.any_eq_true, List.isPrefixOf_iff_prefix]

theorem namesList_nil : namesList [] = false := by decide

/-- **A word for the list fits** where the next words of the strand name it. -/
theorem isSome_listNoun {before : Option Char} (hbefore : touchesWord before = false) {t : Text}
    (hblank : t.head?.any isBlank = false) : (Pattern.word listNouns before t).isSome = namesList (lead t) := by
  rw [Pattern.word, hbefore, if_neg Bool.false_ne_true, List.isSome_findSome?, Bool.eq_iff_iff, List.any_eq_true,
    namesList_iff]
  refine exists_congr fun n => and_congr_right fun hn => ?_
  obtain ⟨hproper, hspaces, -⟩ := properPhrase_listNouns n hn
  constructor
  · intro h
    obtain ⟨k, hk⟩ := Option.isSome_iff_exists.1 h
    exact hproper.prefix_of_wholeReach hk
  · intro h
    have hreach := Pattern.wholeReach_of_prefix hspaces hproper.named hblank h
    rwa [hproper.joined] at hreach

/-- **A mention begins with a run** exactly if the run says whose list it is and the next words of the strand name it. -/
theorem fillerPhrase_at_run {w t : Text} (hw : IsRun w) (ht : touchesWord t.head? = false) :
    (fillerPhrase none (w ++ t)).isSome = (owners.contains (w.map foldLetter) && namesList (lead t)) := by
  have howner := properWords_owners.word_at_run hw ht
  rw [fillerPhrase_eq, Pattern.andThen, ← owners, howner]
  split
  · rename_i hmem
    obtain ⟨b, r, rfl, hb, hr⟩ := Pattern.exists_run t
    rw [List.contains_iff_mem.2 hmem, Bool.true_and, Option.bind_some, List.take_left, List.drop_left,
      Option.isSome_map, Pattern.blanks_andThen_run hb hr, Text.lead_blanks hb]
    split
    · rename_i hnil
      obtain rfl := hnil
      rw [Text.lead_eq_nil hr ht, namesList_nil]
      rfl
    · rename_i hne
      have hlast : touchesWord (b.getLast?.or (w.getLast?.or none)) = false := by
        rw [List.getLast?_eq_some_getLast hne, Option.some_or]
        exact Text.isWordChar_blank (hb _ (List.getLast_mem hne))
      rw [Option.isSome_map, Pattern.isSome_andThen_perhaps, isSome_listNoun hlast hr]
  · rename_i hmem
    rw [List.contains_eq_mem, decide_eq_false hmem]
    rfl

theorem fillerPhrase_takesWords : fillerPhrase.TakesWords := by
  have hnoun : (Pattern.word listNouns).EndsInWord :=
    Pattern.word_endsInWord fun n hn => (properPhrase_listNouns n hn).2.2
  have henvie : (phrase "d'envie".toList).EndsInWord := Pattern.phrase_endsInWord (by decide)
  have hwithin : (phrase "d'envie".toList).Within := fun _ _ _ h => Pattern.reach_le h
  rw [fillerPhrase_eq]
  refine properWords_owners.takesWords.andThen ?_ (hnoun.perhaps henvie.andThen).andThen
  exact Pattern.blanks_within.andThen ((Pattern.word_within _).andThen (Pattern.blanks_within.andThen hwithin).perhaps)

/-- **The pattern has a hit exactly where a strand mentions the list.** -/
theorem occursIn_fillerPhrase (t : Text) : fillerPhrase.occursIn t = (strands t).any mentions := by
  rw [Bool.eq_iff_iff, Pattern.occursIn_iff]
  have hwalk := Pattern.walk_tokens fillerPhrase_takesWords t
  generalize fillerPhrase.tokens t = ts at hwalk
  induction hwalk with
  | nil => simp [Text.strands_nil, mentions]
  | @gap c t ts hc _ ih =>
    have hrest : (∃ d ds, Token.hit d ds ∈ .gap c :: ts) ↔ ∃ d ds, Token.hit d ds ∈ ts := by simp
    refine hrest.trans (ih.trans ?_)
    rcases Text.strands_gap hc with hgap | hgap
    · rw [hgap]
    · rw [hgap, List.any_cons, mentions, Bool.false_or]
  | @run w t ts hw hafter hnone _ ih =>
    have hbegins := fillerPhrase_at_run hw hafter
    rw [hnone, Option.isSome_none] at hbegins
    have hrest : (∃ d ds, Token.hit d ds ∈ w.map .gap ++ ts) ↔ ∃ d ds, Token.hit d ds ∈ ts := by simp
    refine hrest.trans (ih.trans ?_)
    rw [Text.strands_run_eq hw hafter, List.any_cons, mentions, ← hbegins, Bool.false_or, ← List.any_cons,
      ← Text.strands_eq]
  | @hit c cs s t ts hfit _ _ _ _ =>
    refine iff_of_true ⟨c, cs, List.mem_cons_self⟩ ?_
    obtain ⟨w, r, hwr, hw, hr⟩ := Text.exists_run_front (fillerPhrase_takesWords.starts hfit).2.2
    have hbegins := fillerPhrase_at_run hw hr
    rw [← hwr, hfit, Option.isSome_some] at hbegins
    rw [hwr, Text.strands_run_eq hw hr, List.any_cons, mentions, ← hbegins]
    rfl

end Vocabulary
end WatchList
