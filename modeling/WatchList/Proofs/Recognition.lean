import WatchList.Plan
import WatchList.Proofs.Lowering
import WatchList.Proofs.Phrases
import WatchList.Proofs.Spacing
import WatchList.Proofs.Windows
/-!
# Recognised status words

A status word is recognised by a pattern, letter by letter, and then looked up by its small letters and its words.  The
two agree on what a word is (`Pattern.collapsed_of_reach`), and on the case of every letter but one: a long s folds to
an s, and is its own small form.  So what is recognised stands for the status of its alias, unless it has a long s in it;
then it stands for nothing, and a change to it makes its titles wanted (`Status.resolves_recognised`).
-/
namespace WatchList

open Text (words collapsed)

/-! ## The words of what a phrase takes -/

namespace Pattern

/-- **What a phrase takes has the words of the phrase**, up to the case of letters and wherever it stands. -/
theorem words_append_reach {w t : Text} {n : Nat} (h : reach w t = some n) (s : Text) :
    words (s ++ (t.take n).map foldLetter) = words (s ++ w) := by
  induction w generalizing t n s with
  | nil =>
    obtain rfl := Option.some.inj h
    rfl
  | cons a w ih =>
    obtain ⟨u, v, k, rfl, rfl, hk, ⟨rfl, hne, hu, -⟩ | ⟨-, c, rfl, rfl⟩⟩ := exists_of_reach_cons h
    · obtain ⟨b, u, rfl⟩ := List.exists_cons_of_ne_nil hne
      obtain ⟨hb, hu⟩ := List.forall_mem_cons.1 hu
      have hrun : ∀ c ∈ u.map foldLetter, isBlank c = true := by
        intro c hc
        obtain ⟨d, hd, rfl⟩ := List.mem_map.1 hc
        rw [isBlank_foldLetter, hu d hd]
      have hnone := ih hk []
      rw [List.nil_append, List.nil_append] at hnone
      rw [List.take_length_add_append, List.cons_append, List.map_cons, List.map_append,
        Text.words_append (by rw [isBlank_foldLetter, hb]), Text.words_append rfl, Text.words_blank_append hrun, hnone]
    · have hlonger := ih hk (s ++ [foldLetter c])
      rw [List.append_assoc, List.append_assoc] at hlonger
      rw [List.take_length_add_append, List.singleton_append]
      exact hlonger

theorem collapsed_of_reach {w t : Text} (h : reach w t = some t.length) : collapsed (t.map foldLetter) = collapsed w := by
  have hwords := words_append_reach h []
  rw [List.take_length, List.nil_append, List.nil_append] at hwords
  rw [collapsed, hwords, collapsed]

/-- What a phrase takes is blank or stands, in some casing, for a letter of it. -/
theorem mem_of_reach {w t : Text} (h : reach w t = some t.length) {c : Char} (hc : c ∈ t) (hblank : isBlank c = false) :
    foldLetter c ∈ w := by
  have hfold : isBlank (foldLetter c) = false := by rwa [isBlank_foldLetter]
  have hmem := Text.mem_collapsed_of_mem (List.mem_map_of_mem hc) hfold
  rw [collapsed_of_reach h] at hmem
  rcases Text.mem_collapsed hmem with hsp | hmem
  · rw [hsp] at hfold
    cases hfold
  · exact hmem

end Pattern

/-! ## Small letters of what is taken -/

/-- Blanks and letters that fold to Latin-1 have the letter they fold to as their small form, unless they are a long
s. -/
theorem smallForms_eq_fold {c : Char} (h : isBlank c = true ∨ (foldLetter c).toNat < 256) (hlong : c ≠ 'ſ') :
    smallForms c = [[foldLetter c]] := by
  rcases h with hblank | hlatin
  · exact beq_iff_eq.1 (Text.forall_blank (fun c => smallForms c == [[foldLetter c]]) (by decide +kernel) hblank)
  · exact (smallForms_eq_of_latin hlatin hlong).1

theorem Text.lowercase_eq_map {f : Char → Char} {t : Text} (h : ∀ c ∈ t, smallForms c = [[f c]]) :
    t.lowercase = t.map f := by
  have hlowered := Text.lowered_lowercase t
  generalize t.lowercase = s at hlowered
  induction hlowered with
  | nil => rfl
  | cons hw hrest ih =>
    obtain ⟨hc, ht⟩ := List.forall_mem_cons.1 h
    rw [hc, List.mem_singleton] at hw
    rw [hw, ih ht]
    rfl

/-! ## The aliases -/

namespace Vocabulary

/-- The text is written for the alias: in some casing, and with blanks of some kind for its spaces. -/
def Writes (word : Text) (a : Text × Status) : Prop :=
  a ∈ statusAliases ∧ Pattern.reach a.1 word = some word.length

/-- Each alias is made of Latin letters, with its words one space apart. -/
theorem plain_statusAliases : ∀ a ∈ statusAliases,
    (a.1.all fun c => decide (c.toNat < 256)) = true ∧ collapsed a.1 = a.1 ∧ a.1 ≠ [] := by decide +kernel

/-- The aliases are all different, and each code is an alias of its status. -/
theorem find_statusAliases : ∀ a ∈ statusAliases,
    (statusAliases.find? fun b => b.1 == a.1) = some a ∧ ∀ s ∈ Status.all, s.code = a.1 → s = a.2 := by decide +kernel

namespace Writes

variable {word : Text} {a : Text × Status} (h : Writes word a)
include h

theorem collapsed_fold : collapsed (word.map foldLetter) = a.1 := by
  rw [Pattern.collapsed_of_reach h.2, (plain_statusAliases a h.1).2.1]

theorem latin {c : Char} (hc : c ∈ word) : isBlank c = true ∨ (foldLetter c).toNat < 256 := by
  cases hblank : isBlank c with
  | true => exact .inl rfl
  | false =>
    have hmem := Pattern.mem_of_reach h.2 hc hblank
    exact .inr (of_decide_eq_true (List.all_eq_true.1 (plain_statusAliases a h.1).1 _ hmem))

/-- A text is written for one alias at most. -/
theorem unique {b : Text × Status} (hb : Writes word b) : b = a := by
  have hsame : b.1 = a.1 := hb.collapsed_fold.symm.trans h.collapsed_fold
  have hfind := (find_statusAliases b hb.1).1
  rw [hsame, (find_statusAliases a h.1).1] at hfind
  exact (Option.some.inj hfind).symm

end Writes
end Vocabulary

/-! ## What is recognised is resolved -/

theorem Status.ofWord?_of_long_s {word : Text} (hs : 'ſ' ∈ word) : ofWord? word = none := by
  have hblank : isBlank 'ſ' = false := by decide
  have hform : smallForms 'ſ' = [['ſ']] := by decide +kernel
  have hkept : ∀ t : Text, 'ſ' ∈ t → 'ſ' ∈ t.trim.lowercase := fun t ht =>
    (Text.lowered_lowercase t.trim).mem_of_mem (Text.mem_trim ht hblank) hform
  have hkey := hkept word hs
  have hcode : ofCode? word.trim.lowercase = none := by
    have hcodes : ∀ s ∈ all, s.code.contains 'ſ' = false := by decide
    refine List.find?_eq_none.2 fun s hmem heq => ?_
    have hlong := hcodes s hmem
    rw [beq_iff_eq.1 heq, List.contains_eq_mem, decide_eq_true (hkept _ hkey)] at hlong
    cases hlong
  have halias : ofAlias? word.trim.lowercase = none := by
    rw [ofAlias?, Option.map_eq_none_iff, List.find?_eq_none]
    intro b hb heq
    have hmem := Text.mem_collapsed_of_mem hkey hblank
    rw [← beq_iff_eq.1 heq] at hmem
    have hlatin := List.all_eq_true.1 (Vocabulary.plain_statusAliases b hb).1 _ hmem
    exact absurd hlatin (by decide)
  rw [ofWord?, hcode, halias]
  exact ite_self none

section
variable {word : Text} {a : Text × Status} (h : Vocabulary.Writes word a) (hs : 'ſ' ∉ word)
include h hs

namespace Vocabulary.Writes

/-- Without a long s, what is written for an alias has the letters it folds to as its small ones. -/
theorem smallForms_of_mem {c : Char} (hc : c ∈ word) :
    smallForms c = [[foldLetter c]] ∧ smallForms (foldLetter c) = [[foldLetter c]] := by
  have hlatin := h.latin hc
  have hfolded : isBlank (foldLetter c) = true ∨ (foldLetter (foldLetter c)).toNat < 256 := by
    rwa [isBlank_foldLetter, foldLetter_foldLetter]
  have hlong : c ≠ 'ſ' := by
    rintro rfl
    exact hs hc
  have hlongFolded : foldLetter c ≠ 'ſ' := by
    intro heq
    rw [← isBlank_foldLetter, heq] at hlatin
    exact absurd hlatin (by decide)
  have hsmall := smallForms_eq_fold hfolded hlongFolded
  rw [foldLetter_foldLetter] at hsmall
  exact ⟨smallForms_eq_fold hlatin hlong, hsmall⟩

theorem key_eq : word.trim.lowercase = word.trim.map foldLetter :=
  Text.lowercase_eq_map fun _ hc => (h.smallForms_of_mem hs (Text.mem_of_mem_trim hc)).1

theorem collapsed_key : collapsed word.trim.lowercase = a.1 := by
  rw [h.key_eq hs, ← Text.trim_map isBlank_foldLetter, Text.collapsed_trim, h.collapsed_fold]

/-- The key is in small letters already. -/
theorem lowercase_key : word.trim.lowercase.trim.lowercase = word.trim.lowercase.trim := by
  rw [h.key_eq hs]
  refine (Text.lowercase_eq_map (f := id) fun c hc => ?_).trans (List.map_id _)
  obtain ⟨d, hd, rfl⟩ := List.mem_map.1 (Text.mem_of_mem_trim hc)
  exact (h.smallForms_of_mem hs (Text.mem_of_mem_trim hd)).2

/-- A code is read from the text only if it is the alias. -/
theorem code_eq {s : Status} (hcode : Status.ofCode? word.trim.lowercase = some s) : s.code = a.1 := by
  have hplain : ∀ s ∈ Status.all, collapsed s.code = s.code := by decide
  unfold Status.ofCode? at hcode
  have hread : s.code = word.trim.lowercase.trim.lowercase := by
    have hfound := List.find?_some hcode
    exact beq_iff_eq.1 hfound
  rw [← hplain s (List.mem_of_find?_eq_some hcode), hread, h.lowercase_key hs, Text.collapsed_trim, h.collapsed_key hs]

end Vocabulary.Writes

theorem Status.ofWord?_of_writes : ofWord? word = some a.2 := by
  obtain ⟨hfind, hcodes⟩ := Vocabulary.find_statusAliases a h.1
  have hwords := h.collapsed_key hs
  have hne : word.trim.lowercase.isEmpty = false := by
    rw [List.isEmpty_eq_false_iff]
    intro hnil
    rw [hnil] at hwords
    exact (Vocabulary.plain_statusAliases a h.1).2.2 hwords.symm
  have halias : ofAlias? word.trim.lowercase = some a.2 := by
    rw [ofAlias?, hwords, hfind]
    rfl
  rw [ofWord?, hne, halias]
  cases hcode : ofCode? word.trim.lowercase with
  | none => rfl
  | some s =>
    -- a code is an alias of its own status
    rw [hcodes s (by cases s <;> decide) (h.code_eq hs hcode)]
    rfl

end

namespace Vocabulary

/-- What the pattern takes is written for an alias. -/
theorem exists_writes_of_fits {before : Option Char} {t : Text} {n : Nat} (h : statusAlias before t = some n) :
    ∃ a, Writes (t.take n) a := by
  unfold statusAlias Pattern.word at h
  split at h
  · cases h
  · obtain ⟨w, hw, hwhole⟩ := List.exists_of_findSome?_eq_some h
    obtain ⟨a, ha, rfl⟩ := List.mem_map.1 hw
    have hreach := (Option.filter_eq_some_iff.1 hwhole).1
    refine ⟨a, ha, ?_⟩
    rw [Pattern.reach_take hreach, List.length_take, Nat.min_eq_left (Pattern.reach_le hreach)]

theorem exists_writes_of_hit {α : Type} {char : α → Char} {before : Option Char} {as rest : List α} {l : α}
    (h : Token.hit l rest ∈ statusAlias.scan char before as) : ∃ a, Writes ((l :: rest).map char) a := by
  obtain ⟨u, v, -, hfit⟩ := Pattern.place_of_hit_mem statusAlias_stops.within h
  obtain ⟨a, ha⟩ := exists_writes_of_fits hfit
  rw [List.map_append, List.take_left' (by simp)] at ha
  exact ⟨a, ha⟩

theorem exists_writes_of_find {before : Option Char} {ls : List Letter} {f : Found}
    (h : statusAlias.find before ls = some f) : ∃ a, Writes f.text a := by
  obtain ⟨l, rest, hhit, -, hphrase⟩ := Pattern.hit_mem_of_ofTokens? h
  rw [Found.text, hphrase]
  exact exists_writes_of_hit hhit

end Vocabulary

namespace Clause

open Quote (letters)

theorem exists_writes_of_statusAfter {first : Text} {a : Text × Status} (ha : Vocabulary.Writes first a) (v : Found) :
    ∃ window word a, statusAfter (some first) v = some (window, word) ∧ Vocabulary.Writes word a := by
  cases hpivot : Vocabulary.pivot.findAfter v with
  | some p =>
    rw [statusAfter_of_pivot hpivot]
    cases halias : Vocabulary.statusAlias.findAfter p with
    | some f =>
      obtain ⟨b, hb⟩ := Vocabulary.exists_writes_of_find halias
      exact ⟨_, _, b, rfl, hb⟩
    | none => exact ⟨_, _, a, rfl, ha⟩
  | none =>
    cases halias : Vocabulary.statusAlias.findAfter v with
    | some f =>
      obtain ⟨b, hb⟩ := Vocabulary.exists_writes_of_find halias
      exact ⟨_, _, b, statusAfter_of_alias hpivot halias, hb⟩
    | none => exact ⟨_, _, a, statusAfter_of_neither hpivot halias, ha⟩

/-- **A status change has a window and a status word** that is written for an alias. -/
theorem exists_writes_of_statusChange {clause : Text} (h : kind clause = .statusChange) :
    ∃ window word a, statusWindow? clause = some (window, word) ∧ Vocabulary.Writes word a := by
  have hopens : (Vocabulary.statusVerb.opensIn (letters clause) &&
      Vocabulary.statusAlias.opensIn (letters clause)) = true := by
    unfold kind at h
    dsimp only at h
    split at h
    · assumption
    · split at h
      · cases h
      · split at h
        · cases h
        · split at h <;> cases h
  rw [Bool.and_eq_true] at hopens
  obtain ⟨v, hv⟩ := Option.isSome_iff_exists.1 hopens.1
  obtain ⟨f, hf⟩ := Option.isSome_iff_exists.1 hopens.2
  obtain ⟨a, ha⟩ := Vocabulary.exists_writes_of_find hf
  rw [statusWindow?_eq, hv, hf]
  exact exists_writes_of_statusAfter ha v

end Clause

/-- **A recognised status word stands for the status of its alias, but for a long s**, with which it stands for
nothing; and it is written for that one alias.  So a status change sets the status of its word, and with a long s in the
word it makes its titles wanted. -/
theorem Status.resolves_recognised (t : Text) :
    (∀ o ∈ Vocabulary.statusAlias.occurrences t, ∃ a, Vocabulary.Writes o.text a ∧
      (∀ b, Vocabulary.Writes o.text b → b = a) ∧ ofWord? o.text = if 'ſ' ∈ o.text then none else some a.2) ∧
    (Clause.kind t = .statusChange → ∃ window word a, Clause.statusWindow? t = some (window, word) ∧
      Vocabulary.Writes word a ∧ Clause.actions t =
        (Clause.statusTitles window).map (.setStatus · (if 'ſ' ∈ word then wanted else a.2).code)) := by
  have hresolves : ∀ {word : Text} {a : Text × Status}, Vocabulary.Writes word a →
      ofWord? word = if 'ſ' ∈ word then none else some a.2 := by
    intro word a ha
    split
    · exact ofWord?_of_long_s ‹_›
    · exact ofWord?_of_writes ha ‹_›
  constructor
  · intro o ho
    obtain ⟨c, cs, hhit, htext⟩ := Pattern.exists_hit_of_mem_hitsFrom ho
    obtain ⟨a, ha⟩ := Vocabulary.exists_writes_of_hit hhit
    rw [List.map_id, ← htext] at ha
    exact ⟨a, ha, fun b hb => ha.unique hb, hresolves ha⟩
  · intro hkind
    obtain ⟨window, word, a, hwindow, ha⟩ := Clause.exists_writes_of_statusChange hkind
    refine ⟨window, word, a, hwindow, ha, ?_⟩
    have hstatus : ofWord word = if 'ſ' ∈ word then wanted else a.2 := by
      rw [ofWord, hresolves ha]
      split <;> rfl
    rw [Clause.actions, hkind, ← hstatus]
    simp only [hwindow]
    rfl

/-- A word that is recognised as *seen* and, with a long s, stands for nothing: the title it is said of is wanted. -/
theorem Status.long_s_unresolved :
    Vocabulary.statusAlias.occurrences "mark Heat as ſeen".toList = [⟨13, 18, "ſeen".toList⟩] ∧
      Vocabulary.Writes "ſeen".toList ("seen".toList, .seen) ∧ ofWord? "ſeen".toList = none ∧
      Plan.ofText "mark Heat as ſeen".toList = [.setStatus "Heat".toList "wanted".toList] := by
  have hread : Vocabulary.statusAlias.occurrences "mark Heat as ſeen".toList = [⟨13, 18, "ſeen".toList⟩] ∧
      Plan.ofText "mark Heat as ſeen".toList = [.setStatus "Heat".toList "wanted".toList] := by decide +kernel
  exact ⟨hread.1, ⟨by decide, by decide⟩, ofWord?_of_long_s (by decide), hread.2⟩

end WatchList
