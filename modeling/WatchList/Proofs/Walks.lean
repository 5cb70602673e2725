import WatchList.Proofs.Silence
import WatchList.Proofs.Strands
/-!
# Scans word by word

A pattern **takes words** when every hit of it begins where a word begins and ends with a word character
(`Pattern.TakesWords`).  Such a pattern is scanned word by word (`Pattern.walk_tokens`): what is no word character stays,
a run that begins no hit stays, and behind a hit the rest of a run that the hit has torn stays.

A table of words takes whole runs, so no run is torn.  To put blanks in the place of its hits takes the words of the table
out of every strand and nothing else (`Pattern.strands_replaceAll`), and it has a hit exactly where a word of the text is
one of its words (`Pattern.occursIn_word_iff`).
-/
namespace WatchList

open Text (IsRun strands lead wordRuns)

namespace Pattern

theorem occursIn_iff {p : Pattern} {t : Text} : p.occursIn t = true ↔ ∃ c cs, Token.hit c cs ∈ p.tokens t := by
  rw [occursIn, Bool.not_eq_true', List.isEmpty_eq_false_iff]
  constructor
  · intro h
    obtain ⟨o, os, ho⟩ := List.exists_cons_of_ne_nil h
    have hmem : o ∈ p.occurrences t := by
      rw [ho]
      exact List.mem_cons_self
    obtain ⟨c, cs, hhit, -⟩ := exists_hit_of_mem_hitsFrom hmem
    exact ⟨c, cs, hhit⟩
  · rintro ⟨c, cs, hhit⟩
    exact hitsFrom_ne_nil hhit 0

/-! ## Walks -/

/-- Every hit begins where a word begins and ends with a word character, and what stands before a place matters only in
so far as it is part of a word. -/
structure TakesWords (p : Pattern) : Prop where
  within : p.Within
  starts : ∀ {before t n}, p before t = some n → 0 < n ∧ touchesWord before = false ∧ touchesWord t.head? = true
  ends : ∀ {before t n}, p before t = some n → touchesWord (t.take n).getLast? = true
  begins : ∀ {before}, touchesWord before = false → ∀ t, p before t = p none t

/-- The tokens of a text, word by word. -/
inductive Walk (p : Pattern) : Text → List (Token Char) → Prop
  | nil : Walk p [] []
  | gap {c t ts} (hc : isWordChar c = false) (rest : Walk p t ts) : Walk p (c :: t) (.gap c :: ts)
  | run {w t ts} (hw : IsRun w) (ht : touchesWord t.head? = false) (hnone : p none (w ++ t) = none)
      (rest : Walk p t ts) : Walk p (w ++ t) (w.map .gap ++ ts)
  /-- The hit, and what is left of the run at its end. -/
  | hit {c cs s t ts} (hfit : p none (c :: cs ++ (s ++ t)) = some (cs.length + 1))
      (hs : ∀ d ∈ s, isWordChar d = true) (ht : touchesWord t.head? = false) (rest : Walk p t ts) :
      Walk p (c :: cs ++ (s ++ t)) (.hit c cs :: (s.map .gap ++ ts))

section
variable {p : Pattern} (hp : p.TakesWords)
include hp

theorem TakesWords.taken_eq_zero {before : Option Char} {t : Text}
    (h : touchesWord before = true ∨ touchesWord t.head? = false) : p.taken id before t = 0 := by
  rw [taken, List.map_id]
  cases hn : p before t with
  | none => rfl
  | some n =>
    obtain ⟨-, hbefore, hhead⟩ := hp.starts hn
    rcases h with h | h
    · rw [hbefore] at h
      cases h
    · rw [hhead] at h
      cases h

/-- No hit begins inside a word. -/
theorem TakesWords.scan_inside {d : Char} (hd : isWordChar d = true) {s t : Text} (hs : ∀ c ∈ s, isWordChar c = true)
    (ht : touchesWord t.head? = false) : p.scan id (some d) (s ++ t) = s.map .gap ++ p.tokens t := by
  induction s generalizing d with
  | nil =>
    refine scan_congr ?_
    rw [List.map_id]
    have hnone : ∀ before, p before t = none := by
      intro before
      cases hn : p before t with
      | none => rfl
      | some n =>
        have hhead := (hp.starts hn).2.2
        rw [ht] at hhead
        cases hhead
    exact (hnone _).trans (hnone none).symm
  | cons c s ih =>
    obtain ⟨hc, hs⟩ := List.forall_mem_cons.1 hs
    have h0 : p.taken id (some d) (c :: (s ++ t)) = 0 := hp.taken_eq_zero (.inl hd)
    rw [List.cons_append, scan_cons_gap h0, id_eq, ih hc hs]
    rfl

theorem TakesWords.tokens_gap {c : Char} (hc : isWordChar c = false) (t : Text) :
    p.tokens (c :: t) = .gap c :: p.tokens t := by
  have hbefore : touchesWord (some c) = false := hc
  have hbegins : p.scan id (some c) t = p.tokens t := scan_congr (hp.begins hbefore _)
  rw [tokens, scan_cons_gap (hp.taken_eq_zero (.inr hc)), id_eq, hbegins]

theorem TakesWords.tokens_run {w t : Text} (hw : IsRun w) (ht : touchesWord t.head? = false)
    (hnone : p none (w ++ t) = none) : p.tokens (w ++ t) = w.map .gap ++ p.tokens t := by
  obtain ⟨c, s, rfl⟩ := List.exists_cons_of_ne_nil hw.1
  obtain ⟨hc, hs⟩ := List.forall_mem_cons.1 hw.2
  have htaken : p.taken id none (c :: (s ++ t)) = 0 := by
    rw [taken, List.map_id, ← List.cons_append, hnone]
    rfl
  rw [List.cons_append, tokens, scan_cons_gap htaken, id_eq, hp.scan_inside hc hs ht]
  rfl

theorem TakesWords.tokens_hit {c : Char} {cs s t : Text} (hfit : p none (c :: cs ++ (s ++ t)) = some (cs.length + 1))
    (hs : ∀ d ∈ s, isWordChar d = true) (ht : touchesWord t.head? = false) :
    p.tokens (c :: cs ++ (s ++ t)) = .hit c cs :: (s.map .gap ++ p.tokens t) := by
  have htaken : p.taken id none (c :: (cs ++ (s ++ t))) = cs.length + 1 := by
    rw [taken, List.map_id, ← List.cons_append, hfit]
    rfl
  have hlast := hp.ends hfit
  rw [List.take_left' (List.length_cons), List.getLast?_cons] at hlast
  rw [List.cons_append, tokens, scan_cons_hit htaken, List.take_left, List.drop_left, id_eq, hp.scan_inside hlast hs ht]

/-- **A text is scanned word by word.** -/
theorem walk_tokens (t : Text) : Walk p t (p.tokens t) := by
  cases t with
  | nil =>
    rw [tokens, scan_nil]
    exact .nil
  | cons c t =>
    cases hc : isWordChar c with
    | false =>
      rw [hp.tokens_gap hc]
      exact .gap hc (walk_tokens t)
    | true =>
      cases hn : p none (c :: t) with
      | none =>
        obtain ⟨w, r, hwr, hw, hr⟩ := Text.exists_run_front (t := c :: t) hc
        have hpos := List.length_pos_iff.2 hw.1
        have hlt : r.length < (c :: t).length := by
          rw [hwr, List.length_append]
          omega
        rw [hwr] at hn ⊢
        rw [hp.tokens_run hw hr hn]
        exact .run hw hr hn (walk_tokens r)
      | some n =>
        have hpos := (hp.starts hn).1
        have hle := hp.within none _ n hn
        obtain ⟨s, r, hsr, hs, hr⟩ := Text.exists_front (t.drop (n - 1))
        have ht : c :: t = c :: t.take (n - 1) ++ (s ++ r) := by
          rw [← hsr, List.cons_append, List.take_append_drop]
        have hlength : (t.take (n - 1)).length + 1 = n := by
          rw [List.length_cons] at hle
          rw [List.length_take]
          omega
        have hlt : r.length < (c :: t).length := by
          rw [ht, List.length_append, List.length_append, List.length_cons]
          omega
        have hfit : p none (c :: t.take (n - 1) ++ (s ++ r)) = some ((t.take (n - 1)).length + 1) := by
          rw [← ht, hn, hlength]
        rw [ht, hp.tokens_hit hfit hs hr]
        exact .hit hfit hs hr (walk_tokens r)
termination_by t.length
decreasing_by
  · exact Nat.lt_succ_self t.length
  · exact hlt
  · exact hlt

end

/-- With no word character in the place of hits, a text that begins with none still begins with none. -/
theorem Walk.edge_filled {p : Pattern} {t : Text} {ts : List (Token Char)} (h : Walk p t ts) {b : Char}
    (hb : isWordChar b = false) (ht : touchesWord t.head? = false) :
    touchesWord (ts.flatMap (Token.filled [b])).head? = false := by
  cases h with
  | nil => rfl
  | gap hc => exact hc
  | run hw =>
    obtain ⟨d, w, rfl⟩ := List.exists_cons_of_ne_nil hw.1
    have hd : isWordChar d = false := ht
    rw [hw.2 d List.mem_cons_self] at hd
    cases hd
  | hit => exact hb

/-! ## Tables of words -/

section
variable {table : List Text} (ht : ProperWords table)
include ht

theorem ProperWords.isRun {w : Text} (hw : w.map foldLetter ∈ table) : IsRun w := by
  refine ⟨?_, fun c hc => ?_⟩
  · rintro rfl
    exact ht.nonempty hw
  · rw [← isWordChar_foldLetter]
    exact List.all_eq_true.1 (ht.2 _ hw) _ (List.mem_map_of_mem hc)

/-- A table of words takes a whole run, if the run is one of its words in some casing. -/
theorem ProperWords.eq_of_fits {before : Option Char} {t : Text} {n : Nat} (h : word table before t = some n) :
    ∃ w r, t = w ++ r ∧ w.length = n ∧ IsRun w ∧ w.map foldLetter ∈ table ∧ touchesWord before = false ∧
      touchesWord r.head? = false := by
  obtain ⟨w, r, rfl, rfl, hw, hbefore, hafter⟩ := word_eq_some ht.1 h
  exact ⟨w, r, rfl, rfl, ht.isRun hw, hw, hbefore, hafter⟩

theorem ProperWords.word_at_run {w t : Text} (hw : IsRun w) (hafter : touchesWord t.head? = false) :
    word table none (w ++ t) = if w.map foldLetter ∈ table then some w.length else none := by
  have hsame : ∀ n, word table none (w ++ t) = some n → w.map foldLetter ∈ table ∧ w.length = n := by
    intro n hn
    obtain ⟨v, r, hwt, rfl, hv, hmem, -, hr⟩ := ht.eq_of_fits hn
    obtain ⟨rfl, -⟩ := Text.front_unique hw.2 hv.2 hafter hr hwt
    exact ⟨hmem, rfl⟩
  cases hn : word table none (w ++ t) with
  | some n =>
    obtain ⟨hmem, rfl⟩ := hsame n hn
    rw [if_pos hmem]
  | none =>
    rw [if_neg]
    intro hmem
    have htaken : (word table).taken id none (w ++ t) ≠ 0 := taken_word ht.1 hmem rfl hafter
    rw [taken, List.map_id, hn] at htaken
    exact htaken rfl

/-- A run that begins no hit is no word of the table. -/
theorem ProperWords.not_mem_of_none {w t : Text} (hw : IsRun w) (hafter : touchesWord t.head? = false)
    (hnone : word table none (w ++ t) = none) : w.map foldLetter ∉ table := by
  intro hmem
  rw [ht.word_at_run hw hafter, if_pos hmem] at hnone
  cases hnone

theorem ProperWords.takesWords : (word table).TakesWords where
  within := word_within table
  starts h := by
    obtain ⟨w, r, rfl, rfl, hw, -, hbefore, -⟩ := ht.eq_of_fits h
    obtain ⟨c, s, rfl⟩ := List.exists_cons_of_ne_nil hw.1
    exact ⟨List.length_pos_iff.2 hw.1, hbefore, hw.2 c List.mem_cons_self⟩
  ends h := by
    obtain ⟨w, r, rfl, rfl, hw, -⟩ := ht.eq_of_fits h
    rw [List.take_left]
    exact hw.ends.2
  begins h t := by
    rw [word, word, h]
    rfl

/-- The word of a hit, in some casing, is one of the table, and nothing is left of its run. -/
theorem ProperWords.of_hit {c : Char} {cs s t : Text}
    (hfit : word table none (c :: cs ++ (s ++ t)) = some (cs.length + 1)) (hs : ∀ d ∈ s, isWordChar d = true) :
    IsRun (c :: cs) ∧ (c :: cs).map foldLetter ∈ table ∧ s = [] := by
  obtain ⟨w, r, hwr, hlength, hw, hmem, -, hr⟩ := ht.eq_of_fits hfit
  obtain ⟨rfl, rfl⟩ := List.append_inj hwr (by rw [hlength, List.length_cons])
  refine ⟨hw, hmem, ?_⟩
  cases s with
  | nil => rfl
  | cons d s =>
    have hd : isWordChar d = false := hr
    rw [hs d List.mem_cons_self] at hd
    cases hd

/-- **To put blanks in the place of the words of a table takes them out of every strand**, and nothing else. -/
theorem ProperWords.strands_replaceAll (t : Text) : strands ((word table).replaceAll [' '] t) =
    (strands t).map fun g => g.filter fun w => !table.contains (w.map foldLetter) := by
  rw [replaceAll_eq]
  have hwalk := walk_tokens ht.takesWords t
  generalize (word table).tokens t = ts at hwalk
  induction hwalk with
  | nil => rfl
  | @gap c t ts hc _ ih =>
    rw [List.flatMap_cons, Token.filled, List.singleton_append]
    rcases Text.strands_gap hc with hgap | hgap
    · rw [hgap, hgap, ih]
    · rw [hgap, hgap, ih]
      rfl
  | @run w t ts hw hafter hnone hrest ih =>
    have hkept := ht.not_mem_of_none hw hafter hnone
    rw [Token.flatMap_filled_gaps, Text.strands_run hw (hrest.edge_filled rfl hafter), Text.strands_run hw hafter, ih,
      Text.strands_eq t]
    simp [Text.glue, hkept]
  | @hit c cs s t ts hfit hs hafter hrest ih =>
    obtain ⟨hrun, hmem, rfl⟩ := ht.of_hit hfit hs
    rw [List.flatMap_cons, Token.flatMap_filled_gaps, Token.filled, List.singleton_append, List.nil_append,
      Text.strands_blank rfl, ih, List.nil_append, Text.strands_run_eq hrun hafter, Text.strands_eq t]
    have hdropped : ((c :: cs) :: lead t).filter (fun w => !table.contains (w.map foldLetter)) =
        (lead t).filter fun w => !table.contains (w.map foldLetter) := by
      refine List.filter_cons_of_neg fun h => ?_
      rw [List.contains_iff_mem.2 hmem] at h
      cases h
    rw [List.map_cons, List.map_cons, hdropped, List.tail_cons]

/-- The words that are left when blanks are put in the place of the words of a table. -/
theorem ProperWords.wordRuns_replaceAll (t : Text) : wordRuns ((word table).replaceAll [' '] t) =
    (wordRuns t).filter fun w => !table.contains (w.map foldLetter) := by
  rw [Text.wordRuns_eq, ht.strands_replaceAll, Text.wordRuns_eq, List.filter_flatten]

/-- **A table of words has a hit** exactly where a word of the text is one of its words, in some casing. -/
theorem ProperWords.occursIn_iff (t : Text) :
    (word table).occursIn t = true ↔ ∃ w ∈ wordRuns t, w.map foldLetter ∈ table := by
  rw [Pattern.occursIn_iff]
  have hwalk := walk_tokens ht.takesWords t
  generalize (word table).tokens t = ts at hwalk
  induction hwalk with
  | nil => simp [wordRuns, Text.pieces]
  | @gap c t ts hc _ ih => simp [Text.wordRuns_gap hc, ← ih]
  | @run w t ts hw hafter hnone _ ih =>
    have hkept := ht.not_mem_of_none hw hafter hnone
    simp [Text.wordRuns_run hw hafter, hkept, ← ih]
  | @hit c cs s t ts hfit hs hafter _ _ =>
    obtain ⟨hrun, hmem, rfl⟩ := ht.of_hit hfit hs
    rw [List.nil_append, Text.wordRuns_run hrun hafter]
    exact iff_of_true ⟨c, cs, List.mem_cons_self⟩ ⟨_, List.mem_cons_self, hmem⟩

end

end Pattern
end WatchList
