import WatchList.Command.Basic
import WatchList.Proofs.Blanks
import WatchList.Proofs.Lowering
import WatchList.Proofs.Words
/-!
# What sounds like several actions

`Plan.soundsMultiple` looks for something that joins clauses and for the stem of a verb, both in the small letters of the
whole text.  What joins is not missed: a text of two clauses has a delimiter, and a delimiter is one in small letters too
(`Plan.joins_of_split`), two letters aside that make an edge of a word only as capitals.  So a text of several clauses
sounds like several actions exactly if it has one of the stems (`Plan.soundsMultiple_iff`).

But the stems do not cover the verbs.  Some verbs have none, others have one only before a space, and in no stem is there
a long s.  Instructions with such verbs alone do not sound like several actions, and as command lines they name no
command.
-/
namespace WatchList

namespace Text

theorem holds_iff (part t : Text) : holds part t = true ↔ part <:+: t := by
  induction t with
  | nil => rw [holds, List.isEmpty_iff, List.infix_nil]
  | cons c t ih => rw [holds, Bool.or_eq_true_iff, ih, List.isPrefixOf_iff_prefix, List.infix_cons_iff]

end Text

open Pattern in
/-- **A word of a table that stands in a text** stands in its small letters too. -/
theorem Pattern.taken_word_of_lowered {table : List Text} (ht : SingleWords table) {u v s : Text} {n : Nat}
    (h : Text.Lowered (u ++ v) s) (hcling : ∀ c ∈ u ++ v, c ∉ clingingLetters) (hfit : word table u.getLast? v = some n) :
    ∃ u' v', s = u' ++ v' ∧ (word table).taken id u'.getLast? v' ≠ 0 := by
  obtain ⟨p, r, rfl, -, hp, hbefore, hafter⟩ := word_eq_some ht hfit
  obtain ⟨u', v', rfl, hu, hv⟩ := h.of_append
  obtain ⟨p', r', rfl, hp', hr⟩ := hv.of_append
  have hlatin : ∀ c ∈ p, (foldLetter c).toNat < 256 := fun c hc => (ht.letter hp (List.mem_map_of_mem hc)).2
  refine ⟨u', p' ++ r', rfl, taken_word ht (by rw [hp'.map_fold hlatin]; exact hp) ?_ ?_⟩
  · exact hu.last_edge (fun c hc => hcling c (by simp [hc])) hbefore
  · exact hr.head_edge (fun c hc => hcling c (by simp [hc])) hafter

open Vocabulary (conjunction delimiter delimiter_stops singleWords_conjunctions)

namespace Clause

/-- The clause names an action by a verb, and asks for at least one. -/
def acts (clause : Text) : Bool :=
  [ClauseKind.statusChange, .add, .remove].contains (kind clause) && !(actions clause).isEmpty

/-- The first verb of the clause, in small letters and with the character behind it, begins with a stem. -/
def stemmed (clause : Text) : Bool :=
  (Vocabulary.verb.find none (Quote.letters clause)).any fun f =>
    Plan.verbStems.any (·.isPrefixOf (f.text.lowercase ++ (plain f.after).take 1))

theorem length_split_le (t : Text) : (split t).length ≤ (delimiter.cut t).length := by
  have h := List.length_filter_le (fun c : Text => !c.isEmpty) ((delimiter.cut t).map Text.trim)
  rwa [List.length_map] at h

theorem infix_of_mem_split {t c : Text} (h : c ∈ split t) : c <:+: t := by
  obtain ⟨u, hu, rfl⟩ := List.mem_map.1 (List.mem_filter.1 h).1
  exact (Text.trim_infix u).trans (Pattern.infix_of_mem_cut hu)

end Clause

namespace Plan

/-- **What joins is never missed.** -/
theorem joins_of_split {t : Text} (h : 2 ≤ (Clause.split t).length) (hcling : ∀ c ∈ t, c ∉ clingingLetters) :
    (conjunction.occursIn t.lowercase || t.lowercase.contains ';' || t.lowercase.contains '.') = true := by
  obtain ⟨l, ls, hhit, -⟩ := Pattern.open_hit_of_cutTokens (Nat.le_trans h (Clause.length_split_le t))
  obtain ⟨u, v, hletters, hfit⟩ := Pattern.place_of_hit_mem delimiter_stops.within hhit
  have ht : t = u.map Letter.char ++ (l :: ls ++ v).map Letter.char := by
    rw [← List.map_append, ← List.append_assoc, ← hletters, Quote.char_letters]
  rw [Option.or_none, ← List.getLast?_map] at hfit
  have hlower := Text.lowered_lowercase t
  rcases Option.or_eq_some_iff.1 hfit with hword | ⟨-, hmark⟩
  · rw [ht] at hlower hcling
    obtain ⟨u', v', hsmall, htaken⟩ := Pattern.taken_word_of_lowered singleWords_conjunctions hlower hcling hword
    have hoccurs := Pattern.occursIn_of_taken Vocabulary.conjunction_stops.within htaken
    rw [ht, hsmall, hoccurs]
    rfl
  · -- a mark is its own small form
    have hpick : (l.char == '.' || l.char == ';') = true := by
      cases hl : (l.char == '.' || l.char == ';') with
      | true => rfl
      | false => simp [Pattern.one, hl] at hmark
    have hmem : l.char ∈ t := by rw [ht]; simp
    rcases Bool.or_eq_true_iff.1 hpick with hdot | hsemi
    · rw [beq_iff_eq.1 hdot] at hmem
      have hdots := hlower.mem_of_mem hmem (d := '.') (smallForms_of_small (by decide) (by decide))
      simp [hdots]
    · rw [beq_iff_eq.1 hsemi] at hmem
      have hsemis := hlower.mem_of_mem hmem (d := ';') (smallForms_of_small (by decide) (by decide))
      simp [hsemis]

/-- **A text of several clauses sounds like several actions exactly if it has a stem.** -/
theorem soundsMultiple_iff {t : Text} (h : 2 ≤ (Clause.split t).length) (hcling : ∀ c ∈ t, c ∉ clingingLetters) :
    soundsMultiple t = true ↔ ∃ stem ∈ verbStems, stem <:+: t.lowercase := by
  rw [soundsMultiple]
  simp only [joins_of_split h hcling, Bool.true_and, List.any_eq_true, Text.holds_iff]

theorem smallForms_stem {stem : Text} (h : stem ∈ verbStems) : ∀ d ∈ stem, smallForms d = [[d]] := by
  have hall : (verbStems.all fun stem => stem.all fun d => foldLetter d == d && decide (d.toNat < 256)) = true := by decide
  intro d hd
  have hsmall := Bool.and_eq_true_iff.1 (List.all_eq_true.1 (List.all_eq_true.1 hall stem h) d hd)
  exact smallForms_of_small (beq_iff_eq.1 hsmall.1) (of_decide_eq_true hsmall.2)

/-- A stem that reaches one character into what follows reaches into its small letters. -/
theorem stem_prefix_lowered {stem : Text} (hstem : stem ∈ verbStems) {p r r' : Text} (h : stem <+: p ++ r.take 1)
    (hr : Text.Lowered r r') : stem <+: p ++ r' := by
  cases r with
  | nil =>
    rw [List.take_nil, List.append_nil] at h
    exact h.trans (List.prefix_append p r')
  | cons d r =>
    rw [List.take_succ_cons, List.take_zero, List.prefix_concat_iff] at h
    rcases h with rfl | h
    · obtain ⟨r', rfl, -⟩ := hr.of_cons (smallForms_stem hstem d (by simp))
      exact (List.prefix_append_right_inj p).2 ⟨r', rfl⟩
    · exact h.trans (List.prefix_append p r')

/-- **A stemmed verb of a clause is heard in the whole text.** -/
theorem stem_of_stemmed {t c : Text} (hc : c ∈ Clause.split t) (h : Clause.stemmed c = true) :
    ∃ stem ∈ verbStems, stem <:+: t.lowercase := by
  obtain ⟨f, hf, hany⟩ := (Option.any_eq_true _ _).1 h
  obtain ⟨stem, hstem, hstarts⟩ := List.any_eq_true.1 hany
  rw [List.isPrefixOf_iff_prefix] at hstarts
  have hverb := Pattern.word_of_find Vocabulary.singleWords_verbs hf
  have hsigma : 'Σ' ∉ f.text := fun hs =>
    absurd (Vocabulary.singleWords_verbs.letter hverb (List.mem_map_of_mem hs)).2 (by decide)
  -- the text around the verb
  obtain ⟨x, y, ht⟩ := Clause.infix_of_mem_split hc
  have hclause : Clause.plain f.before ++ f.text ++ Clause.plain f.after = c := by
    rw [← Quote.char_letters c, ← Pattern.items_find hf, List.map_append, List.map_append]
    rfl
  have hsplit : x ++ Clause.plain f.before ++ (f.text ++ (Clause.plain f.after ++ y)) = t := by
    rw [← ht, ← hclause]
    simp
  have hlower := Text.lowered_lowercase t
  rw [← hsplit] at hlower
  obtain ⟨u', v', hsmall, -, hv⟩ := hlower.of_append
  obtain ⟨p', r', rfl, hp, hr⟩ := hv.of_append
  rw [(Text.lowered_lowercase f.text).unique hsigma hp] at hsmall
  have hnext : (Clause.plain f.after).take 1 <+: (Clause.plain f.after ++ y).take 1 := by
    rw [List.take_append]
    exact List.prefix_append _ _
  have hstemmed := stem_prefix_lowered hstem
    (hstarts.trans ((List.prefix_append_right_inj _).2 hnext)) hr
  rw [← hsplit, hsmall]
  exact ⟨stem, hstem, hstemmed.isInfix.trans (List.suffix_append _ _).isInfix⟩

/-- **What several actions need to be heard.**  Let two clauses of a text or more name actions by verbs.  Then the text
sounds like several actions exactly if it has a stem in small letters, and it has one if the first verb of any clause
begins with one. -/
theorem soundsMultiple_of_acts {t : Text} (htwo : 2 ≤ (Clause.split t).countP Clause.acts)
    (hcling : ∀ c ∈ t, c ∉ clingingLetters) :
    (soundsMultiple t = true ↔ ∃ stem ∈ verbStems, stem <:+: t.lowercase) ∧
      ((∃ c ∈ Clause.split t, Clause.stemmed c = true) → soundsMultiple t = true) := by
  have hiff := soundsMultiple_iff (Nat.le_trans htwo List.countP_le_length) hcling
  refine ⟨hiff, ?_⟩
  rintro ⟨c, hc, hstemmed⟩
  exact hiff.2 (stem_of_stemmed hc hstemmed)

/-- The stem of *mets* takes the space behind the verb; *drop* has no stem. -/
theorem soundsMultiple_of_acts_mets :
    let t := "Mets Heat en vu. Drop Dune".toList
    2 ≤ (Clause.split t).countP Clause.acts ∧ (∀ c ∈ t, c ∉ clingingLetters) ∧
      (∃ c ∈ Clause.split t, Clause.stemmed c = true) ∧ soundsMultiple t = true := by
  intro t
  have hread : 2 ≤ (Clause.split t).countP Clause.acts ∧ (∃ c ∈ Clause.split t, Clause.stemmed c = true) := by
    decide +kernel
  have hcling : ∀ c ∈ t, c ∉ clingingLetters := by
    have hany : (t.any fun c => clingingLetters.contains c) = false := by decide
    intro c hc
    simpa using List.any_eq_false.1 hany c hc
  exact ⟨hread.1, hcling, hread.2, (soundsMultiple_of_acts hread.1 hcling).2 hread.2⟩

/-- **Verbs without a stem are not heard**: two actions that do not sound like several, so that the line names no
command. -/
theorem unheard_put_drop :
    let t := "put Heat; drop Dune".toList
    (Clause.split t).map Clause.kind = [.add, .remove] ∧
      ofText t = [.add "Heat".toList, .remove "Dune".toList] ∧
      2 ≤ (Clause.split t).countP Clause.acts ∧ soundsMultiple t = false ∧
      Command.ofArgs (["put", "Heat;", "drop", "Dune"].map String.toList) = .unknown "put".toList := by
  decide +kernel

/-- The verbs that have no stem even with a space behind them. -/
example : (Vocabulary.verbs.filter fun v => !verbStems.any (·.isPrefixOf (v ++ [' ']))) =
    ["put", "place", "append", "include", "mettre", "placer", "drop", "erase", "flag", "mettre"].map String.toList := by
  decide

end Plan
end WatchList
