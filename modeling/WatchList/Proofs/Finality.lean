import WatchList.Clause
import WatchList.Proofs.Blanks
import WatchList.Proofs.Seams
import WatchList.Proofs.Titles
/-!
# Clauses are final

A clause is read on its own: its quotes are paired anew, and its ends are edges of words now.  Neither shows in it what
the instruction did not show.  A clause is one clause (`Clause.Final.alone`), since no delimiter fits anywhere outside its
quotations, and the quoted titles of an instruction are those of its clauses, one after the other.

A cut leaves both as they are (`Pattern.cut_final`); so does trimming, which takes off blanks alone (`Pattern.Uncut.trim`,
`Quote.inners_trim`).
-/
namespace WatchList

open Quote (Uncrossed letters inners)

/-! ## Trimming -/

theorem touchesWord_of_blank {next : Option Char} (h : ∀ c ∈ next, isBlank c = true) : touchesWord next = false := by
  cases next with
  | none => rfl
  | some c => exact Text.isWordChar_blank (h c rfl)

theorem Pattern.Uncut.trim {p : Pattern} (hw : p.Within) (hk : p.KeepsToWords) {t : Text} (h : p.Uncut t) :
    p.Uncut t.trim := by
  obtain ⟨u, v, ht, hu, hv⟩ := Text.exists_trim t
  have hleft : Seam u.getLast? (t.trim ++ v).head? := .inl (touchesWord_of_blank fun c hc => hu c (List.mem_of_getLast? hc))
  have hright : Seam t.trim.getLast? v.head? := .inr (touchesWord_of_blank fun c hc => hv c (List.mem_of_head? hc))
  intro l ls hhit
  refine h l ls ?_
  rw [ht, scan_letters_append hw hk hleft (.inl (Quote.closed_of_free (Text.free_of_blank hu))),
    scan_letters_append hw hk hright (.inr (Text.free_of_blank hv))]
  exact List.mem_append_right _ (List.mem_append_left _ hhit)

theorem Quote.inners_trim (t : Text) : inners t.trim = inners t := by
  obtain ⟨u, v, ht, hu, hv⟩ := Text.exists_trim t
  have hleft : Uncrossed u (t.trim ++ v) := .inl (closed_of_free (Text.free_of_blank hu))
  have hright : Uncrossed t.trim v := .inr (Text.free_of_blank hv)
  conv => rhs; rw [ht]
  rw [hleft.inners_append, hright.inners_append, inners_of_free (Text.free_of_blank hu),
    inners_of_free (Text.free_of_blank hv), List.nil_append, List.append_nil]

/-! ## Clauses -/

namespace Vocabulary

theorem delimiter_keepsToWords : delimiter.KeepsToWords := by
  refine properWords_conjunctions.keepsToWords.orElse (Pattern.one_keepsToWords fun c hc => ?_)
  rcases Bool.or_eq_true_iff.1 hc with hc | hc <;> rw [beq_iff_eq.1 hc] <;> decide

end Vocabulary

namespace Clause

open Vocabulary (delimiter delimiter_stops delimiter_keepsToWords)

/-- The text is one clause, as it stands. -/
structure Final (c : Text) : Prop where
  named : c ≠ []
  trimmed : c.trim = c
  alone : split c = [c]
  /-- At no place outside the quotations there is a conjunction, a period or a semicolon. -/
  undelimited : ∀ as l bs, letters c = as ++ l :: bs → l.quoted = false →
    delimiter (as.getLast?.map Letter.char) (plain (l :: bs)) = none

theorem final_of_uncut {c : Text} (hne : c ≠ []) (htrim : c.trim = c) (h : delimiter.Uncut c) : Final c where
  named := hne
  trimmed := htrim
  alone := by
    rw [split, h.cut_eq, List.map_singleton, htrim]
    exact List.filter_cons_of_pos (by simpa using hne)
  undelimited _ _ _ hc hl := h.misses delimiter_stops delimiter_keepsToWords hc hl

theorem flatMap_quotedIn_split (ts : List Text) :
    ((ts.map Text.trim).filter fun c => !c.isEmpty).flatMap Title.quotedIn = Title.ofAll (ts.flatMap inners) := by
  induction ts with
  | nil => rfl
  | cons t ts ih =>
    rw [List.map_cons, List.flatMap_cons, Title.ofAll_append, ← ih, ← Quote.inners_trim t]
    cases h : t.trim with
    | nil => rfl
    | cons c s => rfl

/-- **Cutting into clauses is final**: each clause of an instruction is one clause.  **It never cuts a quoted title**: the
quoted titles of the clauses, in order, are those of the instruction. -/
theorem split_final (instruction : Text) :
    (∀ c ∈ split instruction, Final c) ∧
      (split instruction).flatMap Title.quotedIn = Title.quotedIn instruction := by
  obtain ⟨huncut, hinners⟩ := Pattern.cut_final delimiter_stops delimiter_keepsToWords instruction
  constructor
  · intro c hc
    obtain ⟨hmem, hne⟩ := List.mem_filter.1 hc
    obtain ⟨u, hu, rfl⟩ := List.mem_map.1 hmem
    exact final_of_uncut (by simpa using hne) (Text.trim_trim u)
      ((huncut u hu).trim delimiter_stops.within delimiter_keepsToWords)
  · rw [split, flatMap_quotedIn_split, hinners]
    rfl

end Clause
end WatchList
