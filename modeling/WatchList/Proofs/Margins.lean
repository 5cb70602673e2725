import WatchList.Proofs.Phrases
import WatchList.Proofs.Silence
import WatchList.Proofs.Spacing
/-!
# Blanks at the end of a text

A phrase of words takes nothing of the blanks at the end of a text, since it ends in a letter (`Pattern.reach_append_blanks`).
So neither does a pattern that is made of such phrases (`Pattern.Trims`): it hits in the text with the blanks what it hits
in the text without them (`Pattern.Trims.replaceAll_append`).
-/
namespace WatchList
namespace Pattern

/-- Words with spaces between: the phrase does not end in a space, and its only blanks are spaces. -/
def Worded (w : Text) : Prop := w.getLast?.all (· != ' ') = true ∧ w.all (fun a => a == ' ' || !isBlank a) = true

instance (w : Text) : Decidable (Worded w) := inferInstanceAs (Decidable (_ ∧ _))

theorem Worded.tail {a : Char} {w : Text} (h : Worded (a :: w)) : Worded w := by
  obtain ⟨hlast, hall⟩ := h
  rw [List.all_cons, Bool.and_eq_true] at hall
  refine ⟨?_, hall.2⟩
  cases w with
  | nil => rfl
  | cons c w => simpa using hlast

theorem Worded.letter {a : Char} {w : Text} (h : Worded (a :: w)) (ha : a ≠ ' ') : isBlank a = false := by
  obtain ⟨-, hall⟩ := h
  simp only [List.all_cons, Bool.and_eq_true, Bool.or_eq_true, beq_iff_eq, Bool.not_eq_true'] at hall
  exact hall.1.resolve_left ha

/-- There is no phrase of words in blanks. -/
theorem reach_blanks {w : Text} (hw : Worded w) (hne : w ≠ []) {v : Text} (hv : ∀ c ∈ v, isBlank c = true) :
    reach w v = none := by
  induction w generalizing v with
  | nil => exact absurd rfl hne
  | cons a w ih =>
    by_cases ha : a = ' '
    · have hrest : w ≠ [] := by
        rintro rfl
        simp [Worded, ha] at hw
      have hspace := reach_space hv (v := []) rfl w
      rw [List.append_nil, ih hw.tail hrest (List.forall_mem_nil _), Option.map_none, ite_self] at hspace
      rw [ha, hspace]
    · have hletter := hw.letter ha
      cases v with
      | nil => simp [reach, ha]
      | cons c v =>
        rw [reach_letter ha, if_neg]
        rintro rfl
        rw [isBlank_foldLetter, hv c List.mem_cons_self] at hletter
        cases hletter

/-- **A phrase of words takes nothing of the blanks behind a text.** -/
theorem reach_append_blanks {w : Text} (hw : Worded w) (s : Text) {v : Text} (hv : ∀ c ∈ v, isBlank c = true) :
    reach w (s ++ v) = reach w s := by
  induction w generalizing s with
  | nil => rfl
  | cons a w ih =>
    by_cases ha : a = ' '
    · obtain ⟨u, r, rfl, hu, hr⟩ := exists_run s
      cases r with
      | nil =>
        have hboth : ∀ c ∈ u ++ v, isBlank c = true := List.forall_mem_append.2 ⟨hu, hv⟩
        rw [List.append_nil, reach_blanks hw (List.cons_ne_nil a w) hboth, reach_blanks hw (List.cons_ne_nil a w) hu]
      | cons c r =>
        have hmore : (c :: r ++ v).head?.any isBlank = false := hr
        rw [ha, List.append_assoc, reach_space hu hmore, reach_space hu hr, ih hw.tail]
    · cases s with
      | nil =>
        rw [List.nil_append, reach_blanks hw (List.cons_ne_nil a w) hv,
          reach_blanks hw (List.cons_ne_nil a w) (List.forall_mem_nil _)]
      | cons c s => rw [List.cons_append, reach_letter ha, reach_letter ha, ih hw.tail]

/-- What the pattern takes at a place does not depend on blanks at the end of the text. -/
def Trims (p : Pattern) : Prop := ∀ before s v, (∀ c ∈ v, isBlank c = true) → p before (s ++ v) = p before s

theorem phrase_trims {w : Text} (hw : Worded w) : (phrase w).Trims := fun _ s _ hv => reach_append_blanks hw s hv

theorem word_trims {table : List Text} (ht : ∀ w ∈ table, Worded w) : (word table).Trims := by
  intro before s v hv
  refine word_congr (fun w hw => ?_) before
  rw [wholeReach, wholeReach, reach_append_blanks (ht w hw) s hv]
  cases hn : reach w s with
  | none => rfl
  | some n =>
    -- where the phrase ends the text, a blank comes next instead of nothing: both are edges of a word
    have hedge : touchesWord ((s ++ v).drop n).head? = touchesWord (s.drop n).head? := by
      rw [List.drop_append_of_le_length (reach_le hn)]
      cases s.drop n with
      | cons c r => rfl
      | nil =>
        cases v with
        | nil => rfl
        | cons b v => exact Text.isWordChar_blank (hv b List.mem_cons_self)
    simp only [Option.filter, hedge]

section
variable {p q : Pattern}

theorem Trims.andThen (hw : p.Within) (hp : p.Trims) (hq : q.Trims) : (p.andThen q).Trims := by
  intro before s v hv
  rw [Pattern.andThen, Pattern.andThen, hp before s v hv]
  cases hn : p before s with
  | none => rfl
  | some n =>
    have hle := hw before s n hn
    rw [Option.bind_some, Option.bind_some, List.take_append_of_le_length hle, List.drop_append_of_le_length hle,
      hq _ _ v hv]

theorem Trims.perhaps (hp : p.Trims) : (perhaps p).Trims := by
  intro before s v hv
  rw [Pattern.perhaps, Pattern.orElse, Pattern.orElse, hp before s v hv]

theorem blanks_andThen_run {u r : Text} (hu : ∀ c ∈ u, isBlank c = true) (hr : r.head?.any isBlank = false)
    (before : Option Char) : (blanks.andThen q) before (u ++ r) =
      if u = [] then none else (q (u.getLast?.or before) r).map (u.length + ·) := by
  rw [Pattern.andThen, blanks, blankRun_run hu hr]
  cases u with
  | nil => rfl
  | cons c u =>
    rw [if_neg (List.cons_ne_nil c u), List.length_cons]
    simp

/-- Blanks may go to the end of the text, where nothing can follow them. -/
theorem blanks_andThen_trims (hq : q.Trims) (hnone : ∀ before, q before [] = none) : (blanks.andThen q).Trims := by
  intro before s v hv
  have hend : ∀ {u : Text}, (∀ c ∈ u, isBlank c = true) → (blanks.andThen q) before u = none := by
    intro u hu
    have h := blanks_andThen_run (q := q) hu (r := []) rfl before
    rwa [List.append_nil, hnone, Option.map_none, ite_self] at h
  obtain ⟨u, r, rfl, hu, hr⟩ := exists_run s
  cases r with
  | nil => rw [List.append_nil, hend hu, hend (List.forall_mem_append.2 ⟨hu, hv⟩)]
  | cons c r =>
    have hmore : (c :: r ++ v).head?.any isBlank = false := hr
    rw [List.append_assoc, blanks_andThen_run hu hmore, blanks_andThen_run hu hr, hq _ _ v hv]

end

/-! ## Scans -/

section
variable {p : Pattern} (hw : p.Within) (hp : p.Trims)
include hw hp

theorem Trims.tokens_append (t : Text) {v : Text} (hv : ∀ c ∈ v, isBlank c = true) :
    p.tokens (t ++ v) = p.tokens t ++ v.map .gap := by
  have hblank : ∀ (before : Option Char) {u : Text}, (∀ c ∈ u, isBlank c = true) → p.scan id before u = u.map .gap := by
    intro before u hu
    induction u generalizing before with
    | nil => rw [scan_nil]; rfl
    | cons b u ih =>
      have h0 : p.taken id before (b :: u) = 0 := by
        have hle := taken_le hw id before []
        rw [taken, List.map_id, ← List.nil_append (b :: u), hp before [] _ hu]
        exact Nat.le_zero.1 hle
      rw [scan_cons_gap h0, ih _ fun c hc => hu c (List.mem_cons_of_mem b hc)]
      rfl
  rw [tokens, scan_append_of_taken hw id none fun before u s _ _ => ?_, hblank _ hv]
  · rfl
  · rw [taken, taken, List.map_id, List.map_id, hp before s v hv]

theorem Trims.replaceAll_append (r t : Text) {v : Text} (hv : ∀ c ∈ v, isBlank c = true) :
    p.replaceAll r (t ++ v) = p.replaceAll r t ++ v := by
  rw [replaceAll, hp.tokens_append hw t hv, List.flatMap_append, List.flatMap_map]
  congr 1
  exact List.flatMap_singleton' v

end

end Pattern
end WatchList
