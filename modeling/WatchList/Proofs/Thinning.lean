import WatchList.Proofs.Mentions
/-!
# The words that are left of a title

To drop mentions of the list and bare possessives from a text takes words out of it and keeps the others as they are, in
order (`Title.withoutFiller_words`), with one exception.  A mention that goes on behind its noun need not end where a word
ends: of *d'envies* it takes *d'envie* and leaves an *s* (`Title.withoutFiller_envies`).  Then a word is **clipped**, and
what it loses is its front *envie*, in some casing; no other word is ever cut.
-/
namespace WatchList

open Text (IsRun wordRuns)

/-- Some hit among the tokens tears a word: a word character comes right behind it. -/
def Token.torn : List (Token Char) → Bool
  | [] => false
  | .gap _ :: ts => torn ts
  | .hit _ _ :: ts => touchesWord (ts.flatMap items).head? || torn ts

theorem Token.torn_gaps_append (s : Text) (ts : List (Token Char)) : torn (s.map gap ++ ts) = torn ts := by
  induction s with
  | nil => rfl
  | cons c s ih => exact ih

/-- What is left of words that are thinned out: each is kept, dropped, or clipped, that is, it has lost the front, which
is written in small letters. -/
inductive Thinned (front : Text) : List Text → List Text → Prop
  | nil : Thinned front [] []
  | keep {rs ws} (w : Text) (rest : Thinned front rs ws) : Thinned front (w :: rs) (w :: ws)
  | drop {rs ws} (w : Text) (rest : Thinned front rs ws) : Thinned front rs (w :: ws)
  | clip {rs ws e} (r : Text) (he : e.map foldLetter = front) (rest : Thinned front rs ws) :
      Thinned front (r :: rs) ((e ++ r) :: ws)

namespace Thinned

variable {front : Text} {rs ws : List Text}

theorem drop_all (vs : List Text) (h : Thinned front rs ws) : Thinned front rs (vs ++ ws) := by
  induction vs with
  | nil => exact h
  | cons v vs ih => exact .drop v ih

/-- To drop more of what is left is to drop it from the beginning. -/
theorem filter (keep : Text → Bool) (h : Thinned front rs ws) : Thinned front (rs.filter keep) ws := by
  induction h with
  | nil => exact .nil
  | keep w _ ih =>
    rw [List.filter_cons]
    split
    · exact .keep w ih
    · exact .drop w ih
  | drop w _ ih => exact .drop w ih
  | clip r he _ ih =>
    rw [List.filter_cons]
    split
    · exact .clip r he ih
    · exact .drop _ ih

end Thinned

namespace Pattern

variable {p q : Pattern}

/-- What comes behind a hit begins no word in the middle, or the hit has the front of that word, in some casing. -/
def Tears (p : Pattern) (front : Text) : Prop := ∀ before t n, p before t = some n →
  touchesWord (t.drop n).head? = false ∨
    ∃ h e, t.take n = h ++ e ∧ h ≠ [] ∧ touchesWord h.getLast? = false ∧ e.map foldLetter = front

variable {front : Text}

theorem Tears.andThen (hq : q.Tears front) : (p.andThen q).Tears front := by
  intro before t n hn
  obtain ⟨m, -, hn⟩ := Option.bind_eq_some_iff.1 hn
  obtain ⟨k, hk, rfl⟩ := Option.map_eq_some_iff.1 hn
  rw [List.take_add, ← List.drop_drop]
  refine (hq _ _ k hk).imp id ?_
  rintro ⟨h, e, htake, hne, hlast, he⟩
  refine ⟨t.take m ++ h, e, by rw [htake, List.append_assoc], List.append_ne_nil_of_right_ne_nil _ hne, ?_, he⟩
  rwa [Text.getLast?_append_of_ne_nil _ hne]

theorem Tears.perhaps (hp : p.Tears front) (hq : q.Tears front) : (p.andThen (perhaps q)).Tears front := by
  intro before t n h
  rcases of_andThen_perhaps h with h | h
  · exact hp _ _ _ h
  · exact hq.andThen _ _ _ h

/-- A table of phrases tears no word. -/
theorem word_tears (table : List Text) : (word table).Tears front := by
  intro before t n h
  unfold word at h
  split at h
  · cases h
  · obtain ⟨w, -, hwhole⟩ := List.exists_of_findSome?_eq_some h
    exact .inl (by simpa using (Option.filter_eq_some_iff.1 hwhole).2)

/-- A phrase of letters tears the word that it ends in the middle of. -/
theorem phrase_tears {w : Text} (hw : ' ' ∉ w ++ front) (hne : w ≠ []) (hlast : touchesWord w.getLast? = false) :
    (phrase (w ++ front)).Tears front := by
  intro before t n h
  obtain ⟨s, r, rfl, rfl, hs⟩ := (reach_eq_some_iff hw).1 h
  obtain ⟨u, e, rfl, rfl, he⟩ := List.map_eq_append_iff.1 hs
  refine .inr ⟨u, e, List.take_left, mt List.map_eq_nil_iff.2 hne, ?_, he⟩
  rw [List.getLast?_map] at hlast
  cases hu : u.getLast? with
  | none => rfl
  | some c =>
    rw [hu] at hlast
    have hc : isWordChar (foldLetter c) = false := hlast
    rwa [isWordChar_foldLetter] at hc

end Pattern

namespace Vocabulary

open Pattern (blanks phrase)

/-- A mention of the list tears a word only behind its noun, and then it has the front *envie* of the word. -/
theorem fillerPhrase_tears : fillerPhrase.Tears "envie".toList := by
  have htail : (phrase ("d'".toList ++ "envie".toList)).Tears "envie".toList :=
    Pattern.phrase_tears (by decide) (by decide) (by decide)
  rw [fillerPhrase_eq]
  exact ((Pattern.word_tears listNouns).perhaps htail.andThen).andThen.andThen

theorem isWordChar_envie {e : Text} (he : e.map foldLetter = "envie".toList) : ∀ c ∈ e, isWordChar c = true := by
  have henvie : ("envie".toList.all isWordChar) = true := by decide
  intro c hc
  have hmem := List.mem_map_of_mem (f := foldLetter) hc
  rw [he] at hmem
  rw [← Pattern.isWordChar_foldLetter]
  exact List.all_eq_true.1 henvie _ hmem

/-- **To drop the mentions of the list drops whole words**, or clips one that a mention tears. -/
theorem wordRuns_fillerPhrase (t : Text) :
    Thinned "envie".toList (wordRuns (fillerPhrase.replaceAll [' '] t)) (wordRuns t) ∧
      (Token.torn (fillerPhrase.tokens t) = false →
        (wordRuns (fillerPhrase.replaceAll [' '] t)).Sublist (wordRuns t)) := by
  rw [Pattern.replaceAll_eq]
  have hwalk := Pattern.walk_tokens fillerPhrase_takesWords t
  generalize fillerPhrase.tokens t = ts at hwalk
  induction hwalk with
  | nil => exact ⟨.nil, fun _ => .slnil⟩
  | @gap c t ts hc _ ih =>
    rw [List.flatMap_cons, Token.filled, List.singleton_append, Text.wordRuns_gap hc, Text.wordRuns_gap hc]
    exact ih
  | @run w t ts hw hafter _ hrest ih =>
    rw [Token.flatMap_filled_gaps, Text.wordRuns_run hw (hrest.edge_filled rfl hafter), Text.wordRuns_run hw hafter,
      Token.torn_gaps_append]
    exact ⟨.keep w ih.1, fun htorn => .cons_cons w (ih.2 htorn)⟩
  | @hit c cs s t ts hfit hs hafter hrest ih =>
    rw [List.flatMap_cons, Token.flatMap_filled_gaps, Token.filled, List.singleton_append, Text.wordRuns_gap rfl,
      Token.torn, Token.torn_gaps_append]
    cases s with
    | nil =>
      rw [List.nil_append, List.nil_append, Text.wordRuns_append (.inr hafter)]
      refine ⟨ih.1.drop_all _, fun htorn => ?_⟩
      exact (ih.2 (Bool.or_eq_false_iff.1 htorn).2).trans (List.sublist_append_right _ _)
    | cons d s =>
      -- the hit ends in the middle of the word that ends with `d :: s`
      have hd : isWordChar d = true := hs d List.mem_cons_self
      have htears := fillerPhrase_tears none _ _ hfit
      rw [List.drop_left' (List.length_cons), List.take_left' (List.length_cons)] at htears
      obtain ⟨h, e, hsplit, -, hlast, he⟩ := htears.resolve_left (ne_true_of_eq_false · hd)
      have hword : IsRun (e ++ d :: s) :=
        ⟨List.append_ne_nil_of_right_ne_nil e (List.cons_ne_nil d s), List.forall_mem_append.2 ⟨isWordChar_envie he, hs⟩⟩
      have hwords : wordRuns (c :: cs ++ (d :: s ++ t)) = wordRuns h ++ (e ++ d :: s) :: wordRuns t := by
        rw [hsplit, List.append_assoc, ← List.append_assoc e, Text.wordRuns_append (.inl hlast),
          Text.wordRuns_run hword hafter]
      rw [Text.wordRuns_run ⟨List.cons_ne_nil d s, hs⟩ (hrest.edge_filled rfl hafter), hwords]
      refine ⟨(Thinned.clip (d :: s) he ih.1).drop_all _, fun htorn => ?_⟩
      have hnext : touchesWord (some d) = false := (Bool.or_eq_false_iff.1 htorn).1
      exact absurd hd (ne_true_of_eq_false hnext)

end Vocabulary

namespace Title

open Vocabulary (fillerPhrase possessive possessives)

theorem properWords_possessives : Pattern.ProperWords possessives := Vocabulary.properWords_tables _ (by simp)

/-- What is put in the place of filler brings no quotes. -/
theorem free_replaceAll {p : Pattern} {b : Char} (hb : isQuote b = false) {t : Text} (ht : ∀ c ∈ t, isQuote c = false) :
    ∀ c ∈ p.replaceAll [b] t, isQuote c = false := by
  intro c hc
  rcases Pattern.mem_replaceAll hc with hc | hc
  · rw [List.mem_singleton.1 hc]
    exact hb
  · exact ht c hc

/-- The words of the title in a fragment are those that are left without mentions of the list, less the possessives. -/
theorem wordRuns_withoutFiller {f : Text} (hf : ∀ c ∈ f, isQuote c = false) : wordRuns (withoutFiller f) =
    (wordRuns (fillerPhrase.replaceAll [' '] f)).filter fun w => !possessives.contains (w.map foldLetter) := by
  have hphrase := free_replaceAll (p := fillerPhrase) (b := ' ') (by decide) hf
  have howner := free_replaceAll (p := possessive) (b := ' ') (by decide) hphrase
  rw [withoutFiller, Text.wordRuns_eq, strands_normalize howner, ← Text.wordRuns_eq]
  exact properWords_possessives.wordRuns_replaceAll _

/-- **To drop filler drops whole words** and keeps the others, in order, or clips a word that a mention of the list
tears: the words of the title are some of the words of the fragment, unless a mention ends in the middle of a word. -/
theorem withoutFiller_words {f : Text} (hf : ∀ c ∈ f, isQuote c = false) :
    Thinned "envie".toList (wordRuns (withoutFiller f)) (wordRuns f) ∧
      (Token.torn (fillerPhrase.tokens f) = false → (wordRuns (withoutFiller f)).Sublist (wordRuns f)) := by
  obtain ⟨hthinned, hsublist⟩ := Vocabulary.wordRuns_fillerPhrase f
  rw [wordRuns_withoutFiller hf]
  exact ⟨hthinned.filter _, fun htorn => List.filter_sublist.trans (hsublist htorn)⟩

theorem withoutFiller_words_drive : (∀ c ∈ "Drive to my list".toList, isQuote c = false) ∧
    Token.torn (fillerPhrase.tokens "Drive to my list".toList) = false ∧
    (wordRuns (withoutFiller "Drive to my list".toList)).Sublist (wordRuns "Drive to my list".toList) := by
  have hf : ∀ c ∈ "Drive to my list".toList, isQuote c = false := Quote.free_of_any (by decide)
  have htorn : Token.torn (fillerPhrase.tokens "Drive to my list".toList) = false := by decide +kernel
  exact ⟨hf, htorn, (withoutFiller_words hf).2 htorn⟩

/-- Of *d'envies* an *s* is left, which is no word of the fragment. -/
theorem withoutFiller_envies : (∀ c ∈ "ma liste d'envies".toList, isQuote c = false) ∧
    withoutFiller "ma liste d'envies".toList = "s".toList ∧
    ¬ (wordRuns (withoutFiller "ma liste d'envies".toList)).Sublist (wordRuns "ma liste d'envies".toList) :=
  ⟨Quote.free_of_any (by decide), by decide +kernel⟩

end Title
end WatchList
