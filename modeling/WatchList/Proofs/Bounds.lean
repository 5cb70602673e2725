import WatchList.Proofs.Mentions
import WatchList.Proofs.Slicing
/-!
# The bounds of windows

The window of a clause begins where a verb ends.  Where it ends is found by a search from the verb on, or by one from
the beginning of the clause; so that the end never lies before the beginning needs a proof.  At both ends stands an
open hit or an end of the clause, which no quotation crosses (`Found.Stands`), and so the windows that are found by
offsets are whole, and hold what is read among the letters (`Clause.rel_verbWindow?`, `Clause.rel_statusWindow?`).

With the clauses, the gaps and the insides of quotations these are all slices that an instruction is read by: none is
out of range, none cuts a quotation, and none is missing where the kind of a clause asks for it (`Clause.slices_whole`).
Of all these only the inside of a quotation has ends that a quotation crosses, its own.
-/
namespace WatchList

open Text (size)
open Quote (Uncrossed Sliced Whole spans letters)
open Clause (plain)

/-! ## From one open hit to another -/

/-- The letters up to the end of a hit that was found behind the letters `as`. -/
def Found.through (f : Found) (as : List Letter) : List Letter := as ++ (f.before ++ f.phrase)

theorem Found.stop_located (as : List Letter) (f : Found) :
    (f.located (size (plain as))).stop = size (plain (f.through as)) := by
  rw [Found.through, Clause.plain_append as, Text.size_append]
  rfl

theorem Found.start_located (as : List Letter) (f : Found) :
    (f.located (size (plain as))).start = size (plain (as ++ f.before)) := by
  rw [Clause.plain_append, Text.size_append]
  rfl

/-- The hit stands in the text behind the letters `as`, and no quotation crosses its ends. -/
structure Found.Stands (f : Found) (t : Text) (as : List Letter) : Prop where
  items : letters t = as ++ (f.before ++ (f.phrase ++ f.after))
  phrase : f.phrase ≠ []
  begins : Uncrossed (plain (as ++ f.before)) (plain (f.phrase ++ f.after))
  ends : Uncrossed (plain (f.through as)) (plain f.after)

namespace Found.Stands

variable {f g : Found} {t : Text} {as : List Letter}

theorem behind (h : f.Stands t as) : letters t = f.through as ++ f.after := by
  rw [h.items, Found.through]
  simp

theorem lastChar (h : f.Stands t as) : (plain (f.through as)).getLast? = f.lastChar := by
  have hne : plain f.phrase ≠ [] := mt List.map_eq_nil_iff.1 h.phrase
  rw [Found.through, ← List.append_assoc, Clause.plain_append, Text.getLast?_append_of_ne_nil _ hne, plain,
    List.getLast?_map, Found.lastChar]

end Found.Stands

namespace Pattern

variable {p : Pattern} {f : Found} {t : Text}

theorem stands_of_find (hp : p.StopsAtQuotes) {before : Option Char} {as bs : List Letter} (h : letters t = as ++ bs)
    (hf : p.find before bs = some f) : f.Stands t as := by
  obtain ⟨l, ls, hmem, hl, hphrase⟩ := hit_mem_of_ofTokens? hf
  have hitems := items_find hf
  have hwhole : letters t = as ++ (f.before ++ (f.phrase ++ f.after)) := by rw [h, ← hitems, List.append_assoc]
  have hopen : Uncrossed (plain (as ++ f.before)) (plain f.phrase ++ plain f.after) := by
    have hplace : letters t = (as ++ f.before) ++ l :: (ls ++ f.after) := by
      rw [hwhole, hphrase]
      simp
    rw [← Clause.plain_append, hphrase]
    exact Quote.uncrossed_of_open hplace hl
  refine ⟨hwhole, by rw [hphrase]; exact List.cons_ne_nil l ls, by rwa [Clause.plain_append f.phrase], ?_⟩
  have hfree : ∀ c ∈ plain f.phrase, isQuote c = false := by
    rw [hphrase]
    exact free_of_hit_mem hp hmem
  rw [Found.through, ← List.append_assoc, Clause.plain_append _ f.phrase]
  exact (hopen.behind hfree).2

theorem firstOpen_start (hp : p.Searchable) (t : Text) :
    p.firstOpen t (spans t) 0 = (p.find none (letters t)).map (Found.located 0) :=
  firstOpen_eq_find hp (List.nil_append (letters t)).symm

/-- From the end of an open hit on, the search by offsets finds what is found among the letters behind it. -/
theorem firstOpen_behind (hp : p.Searchable) {as : List Letter} (h : f.Stands t as) :
    p.firstOpen t (spans t) (size (plain (f.through as))) =
      (p.findAfter f).map (Found.located (size (plain (f.through as)))) := by
  rw [firstOpen_eq_find hp h.behind, h.lastChar]
  rfl

end Pattern

namespace Quote

variable {f g : Found} {t : Text} {as : List Letter}

/-- From an open hit to the end of the text. -/
theorem whole_behind (h : f.Stands t as) : Whole t ⟨size (plain (f.through as)), size t⟩ (plain f.after) := by
  have hwhole := whole_to_end h.ends
  rwa [← Clause.plain_append, ← h.behind, Clause.plain_letters] at hwhole

/-- From an open hit to the next one. -/
theorem whole_from_hit (h : f.Stands t as) (hg : g.Stands t (f.through as)) :
    Whole t ⟨size (plain (f.through as)), size (plain (f.through as ++ g.before))⟩ (plain g.before) := by
  have hafter : f.after = g.before ++ (g.phrase ++ g.after) := List.append_cancel_left (h.behind.symm.trans hg.items)
  have hends := h.ends
  have hbegins := hg.begins
  rw [hafter, Clause.plain_append g.before] at hends
  rw [Clause.plain_append _ g.before] at hbegins
  have hwhole := whole_between hends hbegins
  rwa [← Clause.plain_append g.before, ← hafter, ← Clause.plain_append, ← h.behind, Clause.plain_letters,
    ← Clause.plain_append] at hwhole

end Quote

namespace Clause

open Pattern (firstOpen_start firstOpen_behind stands_of_find)

/-! ## Windows by offsets -/

/-- The range from the first verb of a kind to the next stop word, or to the end of the clause. -/
def verbRange? (verb stop : Pattern) (clause : Text) : Option Range :=
  let ss := spans clause
  (verb.firstOpen clause ss 0).map fun v =>
    ⟨v.stop, ((stop.firstOpen clause ss v.stop).map Occurrence.start).getD (size clause)⟩

/-- The range of a status change and the words of its status.  The status is looked for behind the first pivot after
the verb, or behind the verb if there is no pivot, and then in the whole clause.  The range ends at the pivot, or
without one at the status if it stands behind the verb, or else with the clause. -/
def statusRange? (clause : Text) : Option (Range × Text) :=
  let ss := spans clause
  (Vocabulary.statusVerb.firstOpen clause ss 0).bind fun v =>
    let pivot := Vocabulary.pivot.firstOpen clause ss v.stop
    let behind := (pivot.map Occurrence.stop).getD v.stop
    ((Vocabulary.statusAlias.firstOpen clause ss behind).or (Vocabulary.statusAlias.firstOpen clause ss 0)).map fun a =>
      let stop := match pivot with
        | some p => p.start
        | none => if v.stop < a.start then a.start else size clause
      (⟨v.stop, stop⟩, a.text)

/-- **The window after a verb is whole.** -/
theorem rel_verbWindow? {verb stop : Pattern} (hv : verb.Searchable) (hs : stop.Searchable) (t : Text) :
    Option.Rel (Whole t) (verbRange? verb stop t) (verbWindow? verb stop t) := by
  rw [verbRange?, verbWindow?_eq, firstOpen_start hv]
  cases hfv : verb.find none (letters t) with
  | none => exact .none
  | some v =>
    have hstands : v.Stands t [] := stands_of_find hv.toStopsAtQuotes rfl hfv
    have hstop : (v.located 0).stop = size (plain (v.through [])) := Found.stop_located [] v
    refine .some ?_
    dsimp only
    rw [hstop, firstOpen_behind hs hstands, windowAfter]
    cases hfs : stop.findAfter v with
    | none => exact Quote.whole_behind hstands
    | some s =>
      have hwhole := Quote.whole_from_hit hstands (stands_of_find hs.toStopsAtQuotes hstands.behind hfs)
      rwa [← Found.start_located] at hwhole

/-- A phrase of a table begins at no place behind a word character. -/
theorem before_ne_nil {table : List Text} {before : Option Char} (hword : touchesWord before = true) {ls : List Letter}
    {f : Found} (h : (Pattern.word table).find before ls = some f) : f.before ≠ [] := by
  cases ls with
  | nil =>
    rw [Pattern.find_nil] at h
    cases h
  | cons l ls =>
    have htaken : (Pattern.word table).taken Letter.char before (l :: ls) = 0 := by
      simp [Pattern.taken, Pattern.word, hword]
    rw [Pattern.find, Pattern.scan_cons_gap htaken, Found.ofTokens?] at h
    obtain ⟨g, -, rfl⟩ := Option.map_eq_some_iff.1 h
    simp [Found.behind]

theorem statusVerb_lastChar {before : Option Char} {ls : List Letter} {v : Found}
    (h : Vocabulary.statusVerb.find before ls = some v) : touchesWord v.lastChar = true := by
  have hends : Vocabulary.statusVerb.EndsInWord := Pattern.word_endsInWord (by decide +kernel)
  obtain ⟨l, rest, hmem, -, hphrase⟩ := Pattern.hit_mem_of_ofTokens? h
  obtain ⟨u, w, -, hfit⟩ := Pattern.place_of_hit_mem Vocabulary.statusVerb_stops.within hmem
  have hlast := (hends _ _ _ hfit).2
  rw [List.map_append, List.take_append_of_le_length (by simp), List.take_of_length_le (by simp)] at hlast
  rwa [Found.lastChar, hphrase, ← List.getLast?_map]

/-- **The window of a status change is whole**, and the words of the status are the same. -/
theorem rel_statusWindow? (t : Text) :
    Option.Rel (fun r w => Whole t r.1 w.1 ∧ r.2 = w.2) (statusRange? t) (statusWindow? t) := by
  have hverb : Vocabulary.statusVerb.Searchable := Pattern.word_searchable (by simp [Vocabulary.tables])
  have hpivot : Vocabulary.pivot.Searchable := Pattern.word_searchable (by simp [Vocabulary.tables])
  have halias : Vocabulary.statusAlias.Searchable := Pattern.word_searchable (by simp [Vocabulary.tables])
  rw [statusRange?, statusWindow?_eq, firstOpen_start hverb, firstOpen_start halias]
  cases hfv : Vocabulary.statusVerb.find none (letters t) with
  | none => exact .none
  | some v =>
    have hv : v.Stands t [] := stands_of_find hverb.toStopsAtQuotes rfl hfv
    have hstop : (v.located 0).stop = size (plain (v.through [])) := Found.stop_located [] v
    dsimp only [Option.map_some, Option.bind_some]
    rw [hstop, firstOpen_behind hpivot hv]
    cases hfp : Vocabulary.pivot.findAfter v with
    | some p =>
      have hp := stands_of_find hpivot.toStopsAtQuotes hv.behind hfp
      have hwhole := Quote.whole_from_hit hv hp
      rw [← Found.start_located] at hwhole
      dsimp only [Option.map_some, Option.getD_some]
      rw [statusAfter_of_pivot hfp, Found.stop_located, firstOpen_behind halias hp]
      cases Vocabulary.statusAlias.findAfter p with
      | some a => exact .some ⟨hwhole, rfl⟩
      | none =>
        cases Vocabulary.statusAlias.find none (letters t) with
        | some a => exact .some ⟨hwhole, rfl⟩
        | none => exact .none
    | none =>
      dsimp only [Option.map_none, Option.getD_none]
      have hbehind := firstOpen_behind halias hv
      rw [hbehind]
      cases hfa : Vocabulary.statusAlias.findAfter v with
      | some a =>
        have hwhole := Quote.whole_from_hit hv (stands_of_find halias.toStopsAtQuotes hv.behind hfa)
        rw [← Found.start_located] at hwhole
        -- the status does not begin where the verb ends
        have hne : plain a.before ≠ [] := mt List.map_eq_nil_iff.1 (before_ne_nil (statusVerb_lastChar hfv) hfa)
        have hpos : size (plain a.before) ≠ 0 := mt Text.size_eq_zero_iff.1 hne
        have hlt : size (plain (v.through [])) < (a.located (size (plain (v.through [])))).start := by
          rw [Found.start_located, plain_append, Text.size_append]
          omega
        rw [statusAfter_of_alias hfp hfa]
        refine .some ⟨?_, rfl⟩
        dsimp only
        rw [if_pos hlt]
        exact hwhole
      | none =>
        rw [statusAfter_of_neither hfp hfa]
        cases hany : Vocabulary.statusAlias.find none (letters t) with
        | none => exact .none
        | some a =>
          -- a status behind the verb would have been found
          have hnone := Pattern.first_firstOpen halias t (size (plain (v.through [])))
          rw [hbehind, hfa] at hnone
          have hfirst := Pattern.first_firstOpen halias t 0
          rw [firstOpen_start halias, hany] at hfirst
          have hge : ¬ size (plain (v.through [])) < (a.located 0).start := fun hlt =>
            hnone _ ⟨hfirst.1.1, Nat.le_of_lt hlt, hfirst.1.2.2⟩
          refine .some ⟨?_, rfl⟩
          dsimp only
          rw [if_neg hge]
          exact Quote.whole_behind hv

theorem isSome_verbRange? {verb : Pattern} (hv : verb.Searchable) (stop : Pattern) {t : Text}
    (h : verb.opensIn (letters t) = true) : (verbRange? verb stop t).isSome = true := by
  rw [verbRange?, firstOpen_start hv, Option.isSome_map, Option.isSome_map]
  exact h

/-- What a clause of a kind has been found to hold. -/
theorem opensIn_of_kind {t : Text} :
    (kind t = .add → Vocabulary.addVerb.opensIn (letters t) = true) ∧
      (kind t = .remove → Vocabulary.removeVerb.opensIn (letters t) = true) := by
  unfold kind
  grind

/-- The ranges of the clauses of an instruction, before they are trimmed. -/
def splitRanges (instruction : Text) : List Range := Vocabulary.delimiter.cutRanges instruction

/-- **No slice is out of range, and none cuts a quotation.**  Of any text, the ranges of its clauses, those between its
quotations and inside them, and those of its windows fit the text, hold what is read, and hold whole quotations only:
those of the slice are those of the text that lie in the range.  No quotation crosses an end of a clause, of a gap or of a
window.  A clause that changes a status has a verb and a status, and one that adds or removes has its verb, so that no
window is missing. -/
theorem slices_whole (t : Text) :
    (∃ ws, List.Forall₂ (Whole t) (splitRanges t) ws ∧
      split t = (ws.map Text.trim).filter fun c => !c.isEmpty) ∧
    (∃ ws, List.Forall₂ (Whole t) (Quote.gaps t) ws ∧ Quote.withoutQuoted t = Text.joined [','] ws) ∧
    List.Forall₂ (Sliced t) (Quote.innerRanges t) (Quote.inners t) ∧
    Option.Rel (fun r w => Whole t r.1 w.1 ∧ r.2 = w.2) (statusRange? t) (statusWindow? t) ∧
    Option.Rel (Whole t) (verbRange? Vocabulary.addVerb Vocabulary.addStop t)
      (verbWindow? Vocabulary.addVerb Vocabulary.addStop t) ∧
    Option.Rel (Whole t) (verbRange? Vocabulary.removeVerb Vocabulary.removeStop t)
      (verbWindow? Vocabulary.removeVerb Vocabulary.removeStop t) ∧
    (kind t = .statusChange → (statusRange? t).isSome = true) ∧
    (kind t = .add → (verbRange? Vocabulary.addVerb Vocabulary.addStop t).isSome = true) ∧
    (kind t = .remove → (verbRange? Vocabulary.removeVerb Vocabulary.removeStop t).isSome = true) := by
  have hsearch : ∀ table ∈ Vocabulary.tables, (Pattern.word table).Searchable := fun _ => Pattern.word_searchable
  have hadd : Vocabulary.addVerb.Searchable := hsearch _ (by simp [Vocabulary.tables])
  have haddStop : Vocabulary.addStop.Searchable := hsearch _ (by simp [Vocabulary.tables])
  have hremove : Vocabulary.removeVerb.Searchable := hsearch _ (by simp [Vocabulary.tables])
  have hremoveStop : Vocabulary.removeStop.Searchable := hsearch _ (by simp [Vocabulary.tables])
  refine ⟨⟨_, Pattern.wholes_cut Vocabulary.delimiter_stops t, rfl⟩, Quote.wholes_gaps t, Quote.slices_inner t,
    rel_statusWindow? t, rel_verbWindow? hadd haddStop t, rel_verbWindow? hremove hremoveStop t, fun h => ?_,
    fun h => isSome_verbRange? hadd _ (opensIn_of_kind.1 h), fun h => isSome_verbRange? hremove _ (opensIn_of_kind.2 h)⟩
  obtain ⟨window, word, a, hwindow, -⟩ := exists_writes_of_statusChange h
  have hrel := rel_statusWindow? t
  rw [hwindow] at hrel
  generalize statusRange? t = found at hrel
  cases hrel with
  | some _ => rfl

/-- The status stands before the verb, so the window ends with the clause. -/
example : statusRange? "as seen mark «Déjà vu» Heat".toList = some (⟨12, 31⟩, "seen".toList) := by decide +kernel

end Clause
end WatchList
