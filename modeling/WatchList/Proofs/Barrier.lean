import WatchList.Pattern.Scan
import WatchList.Proofs.Quotation
import WatchList.Vocabulary
/-!
# Barriers: characters that a pattern does not see past

A character is a **barrier** for a pattern when the pattern, at a place before it, decides without what stands behind
it, and at the place right behind it decides as at the beginning of a text.  Around a barrier a text can be scanned in
two halves.

A character that is no word character is a barrier for a table of words unless some phrase of the table can go through
it (`word_barrier`).  No phrase goes through a quote (`StopsAtQuotes`), which is why quotations can be scanned apart.
-/
namespace WatchList
namespace Pattern

def Within (p : Pattern) : Prop := ∀ before t n, p before t = some n → n ≤ t.length

def Skips (p : Pattern) (b : Char) : Prop := ∀ before v, p before (b :: v) = none

structure Barrier (p : Pattern) (b : Char) : Prop where
  /-- A hit that begins before `b` ends before it, and does not depend on what follows it. -/
  hides : ∀ before t v, t ≠ [] → p before (t ++ b :: v) = p before t
  /-- Right behind `b` it is as at the beginning of a text. -/
  begins : ∀ t, p (some b) t = p none t

/-! ## Phrases -/

/-- No character of the phrase can stand for `b`. -/
def Clear (b : Char) (w : Text) : Prop := ∀ a ∈ w, if a = ' ' then isBlank b = false else foldLetter b ≠ a

instance (b : Char) (w : Text) : Decidable (Clear b w) :=
  List.decidableBAll (fun a => if a = ' ' then isBlank b = false else foldLetter b ≠ a) w

theorem blankRun_le (t : Text) : blankRun t ≤ t.length := (List.takeWhile_sublist isBlank).length_le

theorem blankRun_append {b : Char} (hb : isBlank b = false) (t v : Text) : blankRun (t ++ b :: v) = blankRun t := by
  induction t with
  | nil => simp [blankRun, hb]
  | cons c t ih =>
    unfold blankRun at *
    rw [List.cons_append, List.takeWhile_cons, List.takeWhile_cons]
    cases isBlank c with
    | true => simp only [↓reduceIte, List.length_cons, ih]
    | false => rfl

theorem reach_le {w t : Text} {n : Nat} (h : reach w t = some n) : n ≤ t.length := by
  induction w generalizing t n with
  | nil =>
    obtain rfl := Option.some.inj h
    exact Nat.zero_le _
  | cons a w ih =>
    unfold reach at h
    split at h
    · split at h
      · cases h
      · rename_i m hm
        obtain ⟨k, hk, rfl⟩ := Option.map_eq_some_iff.1 h
        have hle := blankRun_le t
        have := ih hk
        rw [List.length_drop] at this
        omega
    · split at h
      · cases h
      · split at h
        · obtain ⟨k, hk, rfl⟩ := Option.map_eq_some_iff.1 h
          have := ih hk
          rw [List.length_cons]
          omega
        · cases h

theorem reach_append {b : Char} {w : Text} (hw : Clear b w) (t v : Text) : reach w (t ++ b :: v) = reach w t := by
  induction w generalizing t with
  | nil => rfl
  | cons a w ih =>
    obtain ⟨ha, hw⟩ := List.forall_mem_cons.1 hw
    have ih := ih hw
    by_cases hsp : a = ' '
    · rw [if_pos hsp] at ha
      unfold reach
      rw [if_pos hsp, if_pos hsp, blankRun_append ha]
      cases hn : blankRun t with
      | zero => rfl
      | succ n =>
        have hle := blankRun_le t
        simp only
        rw [List.drop_append_of_le_length (by omega), ih]
    · rw [if_neg hsp] at ha
      unfold reach
      rw [if_neg hsp, if_neg hsp]
      cases t with
      | nil => simp only [List.nil_append, if_neg ha]
      | cons c t => simp only [List.cons_append, ih]

theorem wholeReach_append {b : Char} (hb : isWordChar b = false) {w : Text} (hw : Clear b w) (t v : Text) :
    wholeReach (t ++ b :: v) w = wholeReach t w := by
  unfold wholeReach
  rw [reach_append hw]
  cases hn : reach w t with
  | none => rfl
  | some n =>
    have hedge : touchesWord ((t ++ b :: v).drop n).head? = touchesWord (t.drop n).head? := by
      rw [List.drop_append_of_le_length (reach_le hn)]
      cases t.drop n with
      | nil => simpa [touchesWord] using hb
      | cons c s => rfl
    simp only [Option.filter, hedge]

/-! ## Tables -/

theorem word_within (table : List Text) : (word table).Within := by
  intro before t n h
  unfold word at h
  split at h
  · cases h
  · obtain ⟨w, -, hw⟩ := List.exists_of_findSome?_eq_some h
    exact reach_le (Option.eq_some_of_filter_eq_some hw)

/-- A table fits alike where each of its phrases does. -/
theorem word_congr {table : List Text} {t t' : Text} (h : ∀ w ∈ table, wholeReach t w = wholeReach t' w)
    (before : Option Char) : word table before t = word table before t' := by
  unfold word
  congr 1
  induction table with
  | nil => rfl
  | cons w ws ih =>
    obtain ⟨hw, hws⟩ := List.forall_mem_cons.1 h
    rw [List.findSome?_cons, List.findSome?_cons, hw, ih hws]

theorem word_append {b : Char} (hb : isWordChar b = false) {table : List Text} (ht : ∀ w ∈ table, Clear b w)
    (before : Option Char) (t v : Text) : word table before (t ++ b :: v) = word table before t :=
  word_congr (fun w hw => wholeReach_append hb (ht w hw) t v) before

/-- **What is no word character and stands in no phrase of a table is a barrier for its words.** -/
theorem word_barrier {b : Char} (hb : isWordChar b = false) {table : List Text} (ht : ∀ w ∈ table, Clear b w) :
    (word table).Barrier b where
  hides before t v _ := word_append hb ht before t v
  begins t := by simp [word, touchesWord, hb]

theorem word_skips {b : Char} (hb : isWordChar b = false) {table : List Text} (ht : ∀ w ∈ table, Clear b w)
    (hne : [] ∉ table) : (word table).Skips b := by
  intro before v
  rw [← List.nil_append (b :: v), word_append hb ht]
  unfold word
  split
  · rfl
  · rw [List.findSome?_eq_none_iff]
    intro w hw
    cases w with
    | nil => exact absurd hw hne
    | cons a w => by_cases ha : a = ' ' <;> simp [wholeReach, reach, blankRun, ha]

/-! ## Single characters and alternatives -/

theorem one_within (pick : Char → Bool) : (one pick).Within := by
  intro before t n h
  cases t with
  | nil => cases h
  | cons c t =>
    unfold one at h
    simp only at h
    split at h
    · obtain rfl := Option.some.inj h
      rw [List.length_cons]
      omega
    · cases h

theorem one_barrier (pick : Char → Bool) (b : Char) : (one pick).Barrier b where
  hides before t v ht := by
    cases t with
    | nil => exact absurd rfl ht
    | cons c t => rfl
  begins _ := rfl

theorem one_skips {pick : Char → Bool} {b : Char} (h : pick b = false) : (one pick).Skips b := by
  intro before v
  simp [one, h]

section
variable {p q : Pattern} {b : Char}

theorem Within.orElse (hp : p.Within) (hq : q.Within) : (p.orElse q).Within := by
  intro before t n h
  rcases Option.or_eq_some_iff.1 h with h | ⟨-, h⟩
  · exact hp before t n h
  · exact hq before t n h

theorem Barrier.orElse (hp : p.Barrier b) (hq : q.Barrier b) : (p.orElse q).Barrier b where
  hides before t v ht := by rw [Pattern.orElse, Pattern.orElse, hp.hides before t v ht, hq.hides before t v ht]
  begins t := by rw [Pattern.orElse, Pattern.orElse, hp.begins, hq.begins]

theorem Skips.orElse (hp : p.Skips b) (hq : q.Skips b) : (p.orElse q).Skips b := by
  intro before v
  rw [Pattern.orElse, hp before v, hq before v]
  rfl

end

/-! ## Quotes -/

/-- Every quote is a barrier for the pattern, and no hit begins with one. -/
structure StopsAtQuotes (p : Pattern) : Prop where
  within : p.Within
  barrier : ∀ q, isQuote q = true → p.Barrier q
  skips : ∀ q, isQuote q = true → p.Skips q

theorem eq_false_of_quote (pick : Char → Bool) (h : quoteChars.any pick = false) {q : Char} (hq : isQuote q = true) :
    pick q = false := by
  have hne := List.any_eq_false.1 h q (List.contains_iff_mem.1 hq)
  exact Bool.eq_false_iff.2 hne

theorem isWordChar_quote {q : Char} (h : isQuote q = true) : isWordChar q = false :=
  eq_false_of_quote isWordChar (by decide) h

theorem isBlank_quote {q : Char} (h : isQuote q = true) : isBlank q = false := eq_false_of_quote isBlank (by decide) h

theorem foldLetter_quote {q : Char} (h : isQuote q = true) : foldLetter q = q := by
  have hfold := eq_false_of_quote (fun q => foldLetter q != q) (by decide) h
  exact bne_eq_false_iff_eq.1 hfold

theorem clear_of_free {q : Char} (hq : isQuote q = true) {w : Text} (hw : ∀ c ∈ w, isQuote c = false) : Clear q w := by
  intro a ha
  by_cases hsp : a = ' '
  · rw [if_pos hsp]
    exact isBlank_quote hq
  · rw [if_neg hsp, foldLetter_quote hq]
    intro heq
    rw [heq, hw a ha] at hq
    cases hq

def QuoteFree (table : List Text) : Prop := [] ∉ table ∧ ∀ w ∈ table, w.any isQuote = false

instance (table : List Text) : Decidable (QuoteFree table) :=
  inferInstanceAs (Decidable ([] ∉ table ∧ ∀ w ∈ table, w.any isQuote = false))

theorem word_stopsAtQuotes {table : List Text} (h : QuoteFree table) : (word table).StopsAtQuotes := by
  have hclear : ∀ q, isQuote q = true → ∀ w ∈ table, Clear q w :=
    fun q hq w hw => clear_of_free hq (Quote.free_of_any (h.2 w hw))
  exact ⟨word_within table, fun q hq => word_barrier (isWordChar_quote hq) (hclear q hq),
    fun q hq => word_skips (isWordChar_quote hq) (hclear q hq) h.1⟩

theorem StopsAtQuotes.free {p : Pattern} (h : p.StopsAtQuotes) {before : Option Char} {t : Text} {n : Nat}
    (hn : p before t = some n) : ∀ c ∈ t.take n, isQuote c = false := by
  intro c hc
  cases hq : isQuote c with
  | false => rfl
  | true =>
    exfalso
    obtain ⟨s, v, hsv⟩ := List.append_of_mem hc
    have ht : t = s ++ c :: (v ++ t.drop n) := by
      rw [← List.cons_append, ← List.append_assoc, ← hsv, List.take_append_drop]
    cases s with
    | nil =>
      rw [ht, List.nil_append, h.skips c hq] at hn
      cases hn
    | cons d s =>
      rw [ht, (h.barrier c hq).hides before (d :: s) _ (List.cons_ne_nil d s)] at hn
      have hle := h.within before _ n hn
      have hlen := congrArg List.length hsv
      simp only [List.length_take, List.length_append, List.length_cons] at hle hlen
      omega

end Pattern

/-! ## The vocabulary -/

namespace Vocabulary

open Pattern (StopsAtQuotes QuoteFree word_stopsAtQuotes)

/-- The tables of the patterns that steer the reading. -/
def tables : List (List Text) :=
  [addVerbs, removeVerbs, statusVerbs, pivots, addStops, removeStops, statusAliases.map Prod.fst, conjunctions]

theorem quoteFree_tables : ∀ table ∈ tables, QuoteFree table := by decide +kernel

theorem word_stops {table : List Text} (h : table ∈ tables) : (Pattern.word table).StopsAtQuotes :=
  word_stopsAtQuotes (quoteFree_tables table h)

theorem addVerb_stops : addVerb.StopsAtQuotes := word_stops (by simp [tables])

theorem removeVerb_stops : removeVerb.StopsAtQuotes := word_stops (by simp [tables])

theorem statusVerb_stops : statusVerb.StopsAtQuotes := word_stops (by simp [tables])

theorem pivot_stops : pivot.StopsAtQuotes := word_stops (by simp [tables])

theorem addStop_stops : addStop.StopsAtQuotes := word_stops (by simp [tables])

theorem removeStop_stops : removeStop.StopsAtQuotes := word_stops (by simp [tables])

theorem statusAlias_stops : statusAlias.StopsAtQuotes := word_stops (by simp [tables])

theorem conjunction_stops : conjunction.StopsAtQuotes := word_stops (by simp [tables])

theorem delimiter_stops : delimiter.StopsAtQuotes where
  within := conjunction_stops.within.orElse (Pattern.one_within _)
  barrier q hq := (conjunction_stops.barrier q hq).orElse (Pattern.one_barrier _ q)
  skips q hq := by
    have hpick := Pattern.eq_false_of_quote (fun c => c == '.' || c == ';') (by decide) hq
    exact (conjunction_stops.skips q hq).orElse (Pattern.one_skips hpick)

end Vocabulary
end WatchList
