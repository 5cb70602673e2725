import WatchList.Proofs.Words
/-!
# Seams

A **seam** is a place that no word reaches across: no word character stands before it, or none behind it.  A pattern that
keeps to words sees nothing across a seam, and both ends of what it takes are seams (`Pattern.KeepsToWords`).  So a text
can be scanned apart at every seam that no quotation crosses (`Pattern.scan_letters_append`).

At an open hit a text therefore falls into two that are cut apart from each other (`Pattern.exists_of_open_hit`): what is
cut once is not cut again (`Pattern.cut_final`).
-/
namespace WatchList

open Quote (Uncrossed letters inners)

/-- No word reaches across the place between the two characters. -/
def Seam (before after : Option Char) : Prop := touchesWord before = false ∨ touchesWord after = false

theorem Text.getLast?_append_of_ne_nil (u : Text) {v : Text} (h : v ≠ []) : (u ++ v).getLast? = v.getLast? := by
  rw [List.getLast?_append, List.getLast?_eq_some_getLast h, Option.some_or]

namespace Pattern

/-- The pattern takes whole words, or what is no part of a word. -/
structure KeepsToWords (p : Pattern) : Prop where
  hides : ∀ before s v, s ≠ [] → Seam s.getLast? v.head? → p before (s ++ v) = p before s
  begins : ∀ before v, Seam before v.head? → p before v = p none v
  fits : ∀ before t n, p before t = some n →
    0 < n ∧ Seam before t.head? ∧ Seam (t.take n).getLast? (t.drop n).head?

/-! ## Tables of words and single characters -/

theorem ProperWords.keepsToWords {table : List Text} (ht : ProperWords table) : (word table).KeepsToWords where
  hides before s v hs hseam := by
    rcases hseam with hlast | hhead
    · -- what the pattern takes ends before the last character, which is no word character
      obtain ⟨s, x, rfl⟩ := (List.eq_nil_or_concat s).resolve_left hs
      rw [List.concat_eq_append, List.getLast?_concat] at hlast
      have hx : isWordChar x = false := hlast
      have hclear := ht.clear hx
      rw [List.concat_eq_append, List.append_assoc, List.singleton_append, word_append hx hclear,
        word_append hx hclear]
    · cases v with
      | nil => rw [List.append_nil]
      | cons x v =>
        have hx : isWordChar x = false := hhead
        exact word_append hx (ht.clear hx) before s v
  begins before v hseam := by
    rcases hseam with hbefore | hhead
    · unfold word
      rw [hbefore]
      rfl
    · have hnone : ∀ before, word table before v = none := by
        intro before
        cases v with
        | nil =>
          have hspace := (ht.barrier (b := ' ') (by decide)).2 before []
          rwa [← List.nil_append [' '], word_append (by decide) (ht.clear (by decide))] at hspace
        | cons x v =>
          have hx : isWordChar x = false := hhead
          exact (ht.barrier hx).2 before v
      rw [hnone, hnone]
  fits before t n hn := by
    obtain ⟨w, r, rfl, rfl, hw, hbefore, hafter⟩ := word_eq_some ht.1 hn
    rw [List.drop_left]
    refine ⟨List.length_pos_iff.2 ?_, .inl hbefore, .inr hafter⟩
    rintro rfl
    exact ht.nonempty hw

theorem one_keepsToWords {pick : Char → Bool} (h : ∀ c, pick c = true → isWordChar c = false) :
    (one pick).KeepsToWords where
  hides before s v hs _ := by
    obtain ⟨c, s, rfl⟩ := List.exists_cons_of_ne_nil hs
    rfl
  begins before v _ := rfl
  fits before t n hn := by
    cases t with
    | nil => cases hn
    | cons c t =>
      cases hc : pick c with
      | false => simp [one, hc] at hn
      | true =>
        obtain rfl : 1 = n := by simpa [one, hc] using hn
        exact ⟨Nat.one_pos, .inr (h c hc), .inl (h c hc)⟩

theorem KeepsToWords.orElse {p q : Pattern} (hp : p.KeepsToWords) (hq : q.KeepsToWords) :
    (p.orElse q).KeepsToWords where
  hides before s v hs hseam := by
    rw [Pattern.orElse, Pattern.orElse, hp.hides before s v hs hseam, hq.hides before s v hs hseam]
  begins before v hseam := by rw [Pattern.orElse, Pattern.orElse, hp.begins before v hseam, hq.begins before v hseam]
  fits before t n hn := by
    rcases Option.or_eq_some_iff.1 hn with hn | ⟨-, hn⟩
    · exact hp.fits before t n hn
    · exact hq.fits before t n hn

/-! ## Scanning apart -/

/-- No hit in the text begins outside its quotations. -/
def Uncut (p : Pattern) (t : Text) : Prop :=
  ∀ l ls, Token.hit l ls ∈ p.scan Letter.char none (letters t) → l.quoted = true

section
variable {p : Pattern} (hw : p.Within) (hk : p.KeepsToWords)
include hw hk

/-- **At a seam a scan falls into two.** -/
theorem scan_append_of_seam {α : Type} {char : α → Char} {as bs : List α}
    (h : Seam (as.getLast?.map char) (bs.head?.map char)) :
    p.scan char none (as ++ bs) = p.scan char none as ++ p.scan char none bs := by
  rw [← List.head?_map] at h
  rw [scan_append_of_taken hw char none fun before u s hus hs => ?_, Option.or_none, scan_congr (hk.begins _ _ h)]
  have hlast : (s.map char).getLast? = as.getLast?.map char := by
    rw [List.getLast?_map, ← hus, List.getLast?_append]
    cases hs' : s.getLast? with
    | none => exact absurd (List.getLast?_eq_none_iff.1 hs') hs
    | some a => rfl
  have hseam : Seam (s.map char).getLast? (bs.map char).head? := by rwa [hlast]
  rw [taken, taken, List.map_append, hk.hides before _ _ (mt List.map_eq_nil_iff.1 hs) hseam]

/-- **At a seam that no quotation crosses a text is scanned apart.** -/
theorem scan_letters_append {u v : Text} (hseam : Seam u.getLast? v.head?) (huv : Uncrossed u v) :
    p.scan Letter.char none (letters (u ++ v)) =
      p.scan Letter.char none (letters u) ++ p.scan Letter.char none (letters v) := by
  rw [huv.letters_append]
  refine scan_append_of_seam hw hk ?_
  rwa [← List.getLast?_map, ← List.head?_map, Quote.char_letters, Quote.char_letters]

omit hw in
/-- A hit is scanned alone as it is scanned in the whole. -/
theorem scan_of_fits {before : Option Char} {w v : Text} (h : p before (w ++ v) = some w.length) {l : Letter}
    {ls : List Letter} (hl : letters w = l :: ls) : p.scan Letter.char none (letters w) = [.hit l ls] := by
  obtain ⟨hpos, hbefore, hafter⟩ := hk.fits before _ _ h
  rw [List.take_left, List.drop_left] at hafter
  rw [hk.begins before _ hbefore, hk.hides none w v (List.length_pos_iff.1 hpos) hafter] at h
  have hlength : w.length = ls.length + 1 := by
    rw [← Quote.char_letters w, hl, List.length_map, List.length_cons]
  have htaken : p.taken Letter.char none (l :: ls) = ls.length + 1 := by
    rw [taken, ← hl, Quote.char_letters, h, hlength]
    rfl
  rw [hl, scan_cons_hit htaken, List.take_length, List.drop_length, scan_nil]

end

/-! ## Cutting apart -/

theorem Uncut.cut_eq {p : Pattern} {t : Text} (h : p.Uncut t) : p.cut t = [t] := by
  rw [cut, cutTokens_of_quoted h, items_scan, Quote.char_letters]

section
variable {p : Pattern} (hp : p.StopsAtQuotes) (hk : p.KeepsToWords)
include hp hk

/-- **At an open hit a text falls into two** that are scanned, and hold their quotations, as in the whole. -/
theorem exists_of_open_hit {t : Text} {l : Letter} {ls : List Letter}
    (h : Token.hit l ls ∈ p.scan Letter.char none (letters t)) (hl : l.quoted = false) :
    ∃ u w v, t = u ++ (w ++ v) ∧ w ≠ [] ∧ inners t = inners u ++ inners v ∧
      p.scan Letter.char none (letters t) =
        p.scan Letter.char none (letters u) ++ .hit l ls :: p.scan Letter.char none (letters v) := by
  obtain ⟨as, bs, hitems, hfit⟩ := place_of_hit_mem hp.within h
  have hfree := free_of_hit_mem hp h
  rw [List.append_assoc] at hitems
  have hleft : Uncrossed (as.map Letter.char) ((l :: ls ++ bs).map Letter.char) := Quote.uncrossed_of_open hitems hl
  obtain ⟨-, hrest⟩ := Quote.letters_halves hitems hleft
  have hmap : (l :: ls ++ bs).map Letter.char = (l :: ls).map Letter.char ++ bs.map Letter.char := List.map_append
  rw [hmap] at hleft hrest
  have hright := (hleft.behind hfree).1
  obtain ⟨hw, -⟩ := Quote.letters_halves hrest hright
  have ht : t = as.map Letter.char ++ ((l :: ls).map Letter.char ++ bs.map Letter.char) := by
    rw [← Quote.char_letters t, hitems, List.map_append, hmap]
  rw [Option.or_none, ← List.getLast?_map, hmap] at hfit
  have hlength : ((l :: ls).map Letter.char).length = ls.length + 1 := by rw [List.length_map, List.length_cons]
  obtain ⟨-, hbefore, hafter⟩ := hk.fits _ _ _ hfit
  rw [← hlength, List.take_left, List.drop_left] at hafter
  rw [← hlength] at hfit
  refine ⟨_, _, _, ht, List.cons_ne_nil _ _, ?_, ?_⟩
  · rw [ht, hleft.inners_append, hright.inners_append, Quote.inners_of_free hfree, List.nil_append]
  · conv => lhs; rw [ht]
    rw [scan_letters_append hp.within hk hbefore hleft, scan_letters_append hp.within hk hafter hright,
      scan_of_fits hk hfit hw]
    rfl

/-- **What is cut once is not cut again**, and quotations are in the pieces what they are in the text. -/
theorem cut_final (t : Text) : (∀ u ∈ p.cut t, p.Uncut u) ∧ (p.cut t).flatMap inners = inners t := by
  by_cases h : p.Uncut t
  · rw [h.cut_eq, List.forall_mem_singleton, List.flatMap_singleton]
    exact ⟨h, rfl⟩
  · obtain ⟨l, ls, hhit, hl⟩ : ∃ l ls, Token.hit l ls ∈ p.scan Letter.char none (letters t) ∧ l.quoted = false := by
      simpa [Uncut] using h
    obtain ⟨u, w, v, ht, hne, hinners, hscan⟩ := exists_of_open_hit hp hk hhit hl
    have hlength : t.length = u.length + (w.length + v.length) := by rw [ht, List.length_append, List.length_append]
    have hpos := List.length_pos_iff.2 hne
    -- both texts beside the hit are shorter
    obtain ⟨hu, hui⟩ := cut_final u
    obtain ⟨hv, hvi⟩ := cut_final v
    have hcut : p.cut t = p.cut u ++ p.cut v := by rw [cut, hscan, cutTokens_append_hit _ _ ls hl, cut, cut]
    rw [hcut, List.forall_mem_append, List.flatMap_append, hui, hvi, hinners]
    exact ⟨⟨hu, hv⟩, rfl⟩
termination_by t.length

/-- **Where no hit begins outside the quotations, the pattern fits nowhere outside them.** -/
theorem Uncut.misses {t : Text} (h : p.Uncut t) {as bs : List Letter} {l : Letter} (ht : letters t = as ++ l :: bs)
    (hl : l.quoted = false) : p (as.getLast?.map Letter.char) ((l :: bs).map Letter.char) = none := by
  cases hfit : p (as.getLast?.map Letter.char) ((l :: bs).map Letter.char) with
  | none => rfl
  | some n =>
    exfalso
    obtain ⟨hpos, hbefore, -⟩ := hk.fits _ _ _ hfit
    rw [hk.begins _ _ hbefore] at hfit
    rw [List.head?_map] at hbefore
    have htaken : p.taken Letter.char none (l :: bs) = n - 1 + 1 := by
      rw [taken, hfit, Option.getD_some]
      omega
    have hhit : Token.hit l (bs.take (n - 1)) ∈ p.scan Letter.char none (letters t) := by
      rw [ht, scan_append_of_seam hp.within hk hbefore, scan_cons_hit htaken]
      simp
    rw [h _ _ hhit] at hl
    cases hl

end

end Pattern
end WatchList
