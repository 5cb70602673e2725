import WatchList.Plan
import WatchList.Proofs.Blanks
import WatchList.Proofs.Hits
/-!
# Instructions side by side

A period, a semicolon or a conjunction between two texts, the first of them closed, parts them: the clauses of the whole
are the clauses of the one and then those of the other (`split_mark`, `split_conjunction`), and a space at either side
changes none (`split_space_left`, `split_space_right`).  So reading is compositional (`ofText_joint`).
-/
namespace WatchList

namespace Vocabulary

theorem clear_conjunctions {b : Char} (hb : b ∈ [' ', '.', ';']) :
    isWordChar b = false ∧ ∀ w ∈ conjunctions, Pattern.Clear b w := by
  have hall : ∀ b ∈ [' ', '.', ';'], isWordChar b = false ∧ ∀ w ∈ conjunctions, Pattern.Clear b w := by
    rw [List.forall_mem_cons, List.forall_mem_cons, List.forall_mem_singleton]
    decide +kernel
  exact hall b hb

theorem quoteFree_conjunctions : Pattern.QuoteFree conjunctions := quoteFree_tables _ (by simp [tables])

theorem delimiter_barrier {b : Char} (hb : b ∈ [' ', '.', ';']) : delimiter.Barrier b := by
  obtain ⟨hword, hclear⟩ := clear_conjunctions hb
  exact (Pattern.word_barrier hword hclear).orElse (Pattern.one_barrier _ b)

theorem conjunction_skips {b : Char} (hb : b ∈ [' ', '.', ';']) : conjunction.Skips b := by
  obtain ⟨hword, hclear⟩ := clear_conjunctions hb
  exact Pattern.word_skips hword hclear quoteFree_conjunctions.1

theorem delimiter_skips_space : delimiter.Skips ' ' := (conjunction_skips (by decide)).orElse (Pattern.one_skips rfl)

theorem delimiter_mark {d : Char} (hd : d ∈ ['.', ';']) (before : Option Char) (v : Text) :
    delimiter before (d :: v) = some 1 := by
  have hpick : (d == '.' || d == ';') = true := by
    rcases List.mem_cons.1 hd with rfl | hd
    · rfl
    · rw [List.mem_singleton.1 hd]
      rfl
  rw [delimiter, Pattern.orElse, conjunction_skips (List.mem_cons_of_mem _ hd) before v, Option.none_or, Pattern.one,
    if_pos hpick]

theorem delimiter_conjunction {w : Text} (hw : w ∈ conjunctions) :
    ∃ l ls, l.quoted = false ∧ delimiter.scan Letter.char none (w.map (⟨·, false⟩)) = [.hit l ls] := by
  have hall : ∀ w ∈ conjunctions, delimiter.scan Letter.char none (w.map (⟨·, false⟩)) =
      [.hit ⟨w.headD ' ', false⟩ (w.tail.map (⟨·, false⟩))] := by decide +kernel
  exact ⟨_, _, rfl, hall w hw⟩

end Vocabulary

namespace Clause

open Quote (Closed letters)
open Vocabulary (delimiter delimiter_stops delimiter_barrier delimiter_skips_space)

/-! ## Spaces at the ends -/

theorem scan_space (before : Option Char) (ls : List Letter) :
    delimiter.scan Letter.char before (⟨' ', false⟩ :: ls) = .gap ⟨' ', false⟩ :: delimiter.scan Letter.char none ls :=
  Pattern.scan_skip (delimiter_barrier (by decide)) delimiter_skips_space Letter.char before rfl ls

theorem split_space_left (t : Text) : split (' ' :: t) = split t := by
  have hcut : delimiter.cut (' ' :: t) = Pattern.onto [' '] (delimiter.cut t) := by
    rw [Pattern.cut, Quote.letters_cons rfl, scan_space]
    rfl
  rw [split, split, hcut]
  cases delimiter.cut t with
  | nil => rfl
  | cons w ws => rw [Pattern.onto, List.map_cons, List.map_cons, List.singleton_append, Text.trim_cons_blank rfl]

theorem scan_append_space (before : Option Char) (ls ms : List Letter) :
    delimiter.scan Letter.char before (ls ++ ⟨' ', false⟩ :: ms) =
      delimiter.scan Letter.char before ls ++ .gap ⟨' ', false⟩ :: delimiter.scan Letter.char none ms :=
  Pattern.scan_append_skip delimiter_stops.within (delimiter_barrier (by decide)) delimiter_skips_space Letter.char
    before ls rfl ms

theorem split_space_right {t : Text} (ht : Closed t) : split (t ++ [' ']) = split t := by
  obtain ⟨us, u, hcut⟩ := Pattern.cut_concat delimiter t
  have hspace : delimiter.cut (t ++ [' ']) = us ++ [u ++ [' ']] := by
    rw [Pattern.cut, Quote.letters_append ht, Quote.letters_cons rfl, scan_append_space]
    refine Pattern.cutTokens_append hcut ?_
    rw [Quote.letters_nil, Pattern.scan_nil]
    rfl
  rw [split, split, hspace, hcut, List.map_append, List.map_append, List.map_singleton, List.map_singleton,
    Text.trim_append_blank rfl]

/-! ## Clauses side by side -/

theorem split_of_scan {t a b : Text} (l : Letter) (ls : List Letter) (hl : l.quoted = false)
    (h : delimiter.scan Letter.char none (letters t) = delimiter.scan Letter.char none (letters a) ++
      .hit l ls :: delimiter.scan Letter.char none (letters b)) : split t = split a ++ split b := by
  rw [split, Pattern.cut, h, Pattern.cutTokens_append_hit _ _ ls hl, List.map_append, List.filter_append]
  rfl

theorem split_mark {a : Text} (ha : Closed a) {d : Char} (hd : d ∈ ['.', ';']) (b : Text) :
    split (a ++ d :: b) = split a ++ split b := by
  have hall : ∀ d ∈ ['.', ';'], isQuote d = false := by
    rw [List.forall_mem_cons, List.forall_mem_singleton]
    decide
  have hquote := hall d hd
  have hbarrier := delimiter_barrier (List.mem_cons_of_mem ' ' hd)
  have htaken : ∀ before, delimiter.taken Letter.char before (⟨d, false⟩ :: letters b) = 0 + 1 := by
    intro before
    rw [Pattern.taken, List.map_cons, Vocabulary.delimiter_mark hd]
    rfl
  refine split_of_scan ⟨d, false⟩ [] rfl ?_
  rw [Quote.letters_append ha, Quote.letters_cons hquote,
    Pattern.scan_append delimiter_stops.within hbarrier Letter.char none _ _ rfl,
    Pattern.scan_cons_hit (htaken _)]
  congr 2
  exact Pattern.scan_begins hbarrier Letter.char (letters b)

theorem split_conjunction {a : Text} (ha : Closed a) {w : Text} (hw : w ∈ Vocabulary.conjunctions) (b : Text) :
    split (a ++ ' ' :: (w ++ ' ' :: b)) = split a ++ split b := by
  have hfree := Quote.free_of_any (Vocabulary.quoteFree_conjunctions.2 w hw)
  obtain ⟨l, ls, hl, hscan⟩ := Vocabulary.delimiter_conjunction hw
  have hparted : split (a ++ ' ' :: (w ++ ' ' :: b)) = split (a ++ [' ']) ++ split (' ' :: b) := by
    refine split_of_scan l ls hl ?_
    rw [Quote.letters_append ha, Quote.letters_append ha, Quote.letters_cons rfl, Quote.letters_cons rfl,
      Quote.letters_cons rfl, Quote.letters_of_free hfree, Quote.letters_cons rfl, scan_append_space,
      scan_append_space, scan_append_space, scan_space, hscan, Quote.letters_nil, Pattern.scan_nil]
    simp
  rw [hparted, split_space_right ha, split_space_left]

/-- What parts two instructions: a mark, alone or with a space behind it, or a conjunction between spaces. -/
inductive Separates : Text → Prop where
  | mark {d : Char} (hd : d ∈ ['.', ';']) : Separates [d]
  | markSpace {d : Char} (hd : d ∈ ['.', ';']) : Separates [d, ' ']
  | conjunction {w : Text} (hw : w ∈ Vocabulary.conjunctions) : Separates (' ' :: (w ++ [' ']))

def ways : List Text :=
  ['.', ';'].map (fun d => [d]) ++ ['.', ';'].map (fun d => [d, ' ']) ++
    Vocabulary.conjunctions.map fun w => ' ' :: (w ++ [' '])

theorem mem_ways {sep : Text} : sep ∈ ways ↔ Separates sep := by
  constructor
  · intro h
    rcases List.mem_append.1 h with h | h
    · rcases List.mem_append.1 h with h | h
      · obtain ⟨d, hd, rfl⟩ := List.mem_map.1 h
        exact .mark hd
      · obtain ⟨d, hd, rfl⟩ := List.mem_map.1 h
        exact .markSpace hd
    · obtain ⟨w, hw, rfl⟩ := List.mem_map.1 h
      exact .conjunction hw
  · intro h
    cases h with
    | mark hd => exact List.mem_append_left _ (List.mem_append_left _ (List.mem_map.2 ⟨_, hd, rfl⟩))
    | markSpace hd => exact List.mem_append_left _ (List.mem_append_right _ (List.mem_map.2 ⟨_, hd, rfl⟩))
    | conjunction hw => exact List.mem_append_right _ (List.mem_map.2 ⟨_, hw, rfl⟩)

instance : DecidablePred Separates := fun _ => decidable_of_iff _ mem_ways

theorem split_append {a sep : Text} (ha : Closed a) (hsep : Separates sep) (b : Text) :
    split (a ++ sep ++ b) = split a ++ split b := by
  cases hsep with
  | mark hd =>
    rw [List.append_assoc, List.singleton_append]
    exact split_mark ha hd b
  | markSpace hd =>
    rw [List.append_assoc, List.cons_append, List.singleton_append, split_mark ha hd, split_space_left]
  | conjunction hw =>
    rw [List.append_assoc, List.cons_append, List.append_assoc, List.singleton_append]
    exact split_conjunction ha hw b

/-- The shortest ways to part two instructions. -/
def joints : List Text := [";", ".", " and ", " then ", " et ", " puis "].map String.toList

theorem separates_of_mem_joints {sep : Text} (h : sep ∈ joints) : Separates sep := by
  have hall : ∀ sep ∈ joints, Separates sep := by decide
  exact hall sep h

end Clause

/-- **Reading is compositional.**  Two texts, the first of them with its quotes in pairs, are read apart when one of
the joints stands between them: their clauses come one after the other, and so do their actions. -/
theorem Plan.ofText_joint {a sep : Text} (ha : a.countP isQuote % 2 = 0) (hsep : sep ∈ Clause.joints) (b : Text) :
    Plan.ofText (a ++ sep ++ b) = Plan.ofText a ++ Plan.ofText b ∧
      Clause.split (a ++ sep ++ b) = Clause.split a ++ Clause.split b := by
  have hsplit := Clause.split_append ha (Clause.separates_of_mem_joints hsep) b
  refine ⟨?_, hsplit⟩
  rw [ofText, hsplit, List.flatMap_append]
  rfl

/-- A conjunction in a quotation before the joint, and a quote left open behind it. -/
theorem Plan.ofText_joint_then :
    "add \"Salt and Pepper\"".toList.countP isQuote % 2 = 0 ∧ " then ".toList ∈ Clause.joints ∧
      Plan.ofText ("add \"Salt and Pepper\"".toList ++ " then ".toList ++ "remove Dune, \"Heat".toList) =
        [.add "Salt and Pepper".toList, .remove "Dune".toList, .remove "Heat".toList] ∧
      Clause.split ("add \"Salt and Pepper\"".toList ++ " then ".toList ++ "remove Dune, \"Heat".toList) =
        ["add \"Salt and Pepper\"".toList, "remove Dune, \"Heat".toList] := by
  have hclosed : "add \"Salt and Pepper\"".toList.countP isQuote % 2 = 0 := by decide
  have hsep : " then ".toList ∈ Clause.joints := by decide
  obtain ⟨hplan, hsplit⟩ := Plan.ofText_joint hclosed hsep "remove Dune, \"Heat".toList
  have hread : Plan.ofText "add \"Salt and Pepper\"".toList ++ Plan.ofText "remove Dune, \"Heat".toList =
        [.add "Salt and Pepper".toList, .remove "Dune".toList, .remove "Heat".toList] ∧
      Clause.split "add \"Salt and Pepper\"".toList ++ Clause.split "remove Dune, \"Heat".toList =
        ["add \"Salt and Pepper\"".toList, "remove Dune, \"Heat".toList] := by decide +kernel
  exact ⟨hclosed, hsep, hplan.trans hread.1, hsplit.trans hread.2⟩

end WatchList
