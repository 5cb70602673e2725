import WatchList.Proofs.PlainLists
/-!
# The titles that the three kinds of clauses read

A clause that adds and a clause that removes read the same titles from the same text: the quoted ones, and then the
others.  A status change reads the quoted ones *or* the others.  So it loses every title outside the quotations of a text
that has a title in one, and where the quotations are blank it takes what stands around them for one title
(`Clause.titles_of_three`, `Clause.mark_loses`).

The words of the three clauses around the text are found whatever it holds, if nothing in it steers the reading
(`Clause.actions_added`, `Clause.actions_removed`, `Clause.actions_marked`).
-/
namespace WatchList

open Pattern (unquoted)
open Quote (letters)

/-! ## Spaces around a text -/

namespace Text

/-- A character that does not cut goes to the last piece. -/
theorem pieces_concat {α : Type} {cut : α → Bool} {c : α} (hc : cut c = false) :
    ∀ t : List α, ∃ ws w, pieces cut t = ws ++ [w] ∧ pieces cut (t ++ [c]) = ws ++ [w ++ [c]]
  | [] => ⟨[], [], rfl, by simp [pieces, hc]⟩
  | d :: t => by
    obtain ⟨ws, w, ht, htc⟩ := pieces_concat hc t
    cases hd : cut d with
    | true => exact ⟨[] :: ws, w, by simp [pieces, hd, ht], by simp [pieces, hd, htc]⟩
    | false =>
      cases ws with
      | nil => exact ⟨[], d :: w, by simp [pieces, hd, ht], by simp [pieces, hd, htc]⟩
      | cons v vs => exact ⟨(d :: v) :: vs, w, by simp [pieces, hd, ht], by simp [pieces, hd, htc]⟩

end Text

namespace Title

theorem plainIn_space (t : Text) : plainIn (' ' :: t) = plainIn t := by
  have hjoin : Vocabulary.conjunction.Spaced [] := (Vocabulary.words_spaced Vocabulary.conjunctions (by simp) []).1
  have hspace : isSeparator ' ' = false := by decide
  obtain ⟨w, ws, hbare, hpieces⟩ := Text.pieces_cons hspace (Vocabulary.conjunction.replaceAll [','] t)
  rw [plainIn, plainIn, hjoin.replaceAll_space, hpieces, hbare, List.map_cons, List.map_cons, withoutFiller_space]

theorem plainIn_append_space (t : Text) : plainIn (t ++ [' ']) = plainIn t := by
  have hjoin : Vocabulary.conjunction.Trims := (Vocabulary.words_trim Vocabulary.conjunctions (by simp)).1
  have hspace : isSeparator ' ' = false := by decide
  obtain ⟨ws, w, hbare, hpieces⟩ := Text.pieces_concat hspace (Vocabulary.conjunction.replaceAll [','] t)
  rw [plainIn, plainIn, hjoin.replaceAll_append Vocabulary.conjunction_stops.within _ _ Pattern.blank_space, hpieces,
    hbare, List.map_append, List.map_append, List.map_singleton, List.map_singleton,
    withoutFiller_append_blanks _ Pattern.blank_space]

end Title

namespace Quote

theorem inners_spaces (t : Text) : inners (' ' :: t) = inners t ∧ inners (t ++ [' ']) = inners t := by
  have hfree : ∀ c ∈ [' '], isQuote c = false := List.forall_mem_singleton.2 (by decide)
  have hleft : Uncrossed [' '] t := .inl (closed_of_free hfree)
  have hright : Uncrossed t [' '] := .inr hfree
  constructor
  · rw [← List.singleton_append, hleft.inners_append, inners_of_free hfree, List.nil_append]
  · rw [hright.inners_append, inners_of_free hfree, List.append_nil]

theorem withoutQuoted_space (t : Text) : withoutQuoted (' ' :: t) = ' ' :: withoutQuoted t := by
  have hspace : isQuote ' ' = false := by decide
  rw [withoutQuoted, parts, partsFrom_none_plain hspace]
  rfl

end Quote

namespace Clause

/-- Spaces around a window make no difference to the titles that are read from it. -/
theorem verbTitles_space (t : Text) : verbTitles (' ' :: t) = verbTitles t := by
  rw [verbTitles, verbTitles, Title.quotedIn, Title.quotedIn, (Quote.inners_spaces t).1, Quote.withoutQuoted_space,
    Title.plainIn_space]

theorem statusTitles_spaces (t : Text) : statusTitles (' ' :: (t ++ [' '])) = statusTitles t := by
  rw [statusTitles, statusTitles, Title.quotedIn, Title.quotedIn, (Quote.inners_spaces _).1, (Quote.inners_spaces t).2,
    Title.plainIn_space, Title.plainIn_append_space]

end Clause

/-! ## Words around a text -/

/-- A text has no quote, or a last one. -/
theorem Quote.exists_last : ∀ t : Text, (∀ c ∈ t, isQuote c = false) ∨
    ∃ s q r, t = s ++ q :: r ∧ isQuote q = true ∧ ∀ c ∈ r, isQuote c = false
  | [] => .inl (List.forall_mem_nil _)
  | c :: t => by
    rcases exists_last t with hfree | ⟨s, q, r, rfl, hq, hr⟩
    · cases hc : isQuote c with
      | true => exact .inr ⟨[], c, t, rfl, hc, hfree⟩
      | false => exact .inl (List.forall_mem_cons.2 ⟨hc, hfree⟩)
    · exact .inr ⟨c :: s, q, r, rfl, hq, hr⟩

namespace Pattern

/-- A space is a barrier for the pattern, and no hit begins with one. -/
structure StopsAtSpaces (p : Pattern) : Prop where
  within : p.Within
  barrier : p.Barrier ' '
  skips : p.Skips ' '

variable {p : Pattern}

theorem Spaced.find_space {rest : Text} (hp : p.Spaced rest) (before : Option Char) (ls : List Letter) :
    p.find before (⟨' ', false⟩ :: ls) = (p.find none ls).map (Found.behind [⟨' ', false⟩]) := by
  rw [find, hp.scan_blank Letter.char before rfl]
  rfl

/-- **Where the pattern fits behind the last quote of a text**, it has an open hit. -/
theorem opensIn_of_fits (hp : p.StopsAtQuotes) (t : Text) {u v : Text} (hne : u ≠ []) (hu : ∀ c ∈ u, isQuote c = false)
    (hv : ∀ c ∈ v, isQuote c = false) (hfit : p.taken id u.getLast? v ≠ 0) :
    p.opensIn (letters (t ++ (u ++ v))) = true := by
  have hhit : ∀ r : Text, ∃ c cs, Token.hit ⟨c, false⟩ (unquoted cs) ∈ p.scan Letter.char none (unquoted (r ++ (u ++ v))) := by
    intro r
    have hlast : ((r ++ u).getLast?.map id).or none = u.getLast? := by
      rw [List.getLast?_append, List.getLast?_eq_some_getLast hne]
      rfl
    obtain ⟨c, cs, hmem⟩ := hit_mem_of_taken (u := r ++ u) hp.within (hlast ▸ hfit)
    refine ⟨c, cs, ?_⟩
    rw [← List.append_assoc, scan_unquoted]
    exact List.mem_map_of_mem hmem
  have hend : ∀ c ∈ u ++ v, isQuote c = false := List.forall_mem_append.2 ⟨hu, hv⟩
  rcases Quote.exists_last t with hfree | ⟨s, q, r, rfl, hq, hr⟩
  · obtain ⟨c, cs, hmem⟩ := hhit t
    rw [letters_eq_unquoted (List.forall_mem_append.2 ⟨hfree, hend⟩)]
    exact opensIn_of_open_hit hmem rfl
  · -- no hit reaches over the last quote, so that the scan begins anew behind it
    obtain ⟨c, cs, hmem⟩ := hhit r
    have hrest : ∀ c ∈ r ++ (u ++ v), isQuote c = false := List.forall_mem_append.2 ⟨hr, hend⟩
    have hcross : Quote.Uncrossed (s ++ [q]) (r ++ (u ++ v)) := .inr hrest
    have hshape : s ++ q :: r ++ (u ++ v) = (s ++ [q]) ++ (r ++ (u ++ v)) := by simp
    obtain ⟨ls, l, hletters, hl⟩ : ∃ ls l, letters (s ++ [q]) = ls ++ [l] ∧ l.char = q := by
      have hchars := Quote.char_letters (s ++ [q])
      obtain ⟨ls, ms, hletters, -, hms⟩ := List.map_eq_append_iff.1 hchars
      obtain ⟨l, rfl, hl⟩ := List.map_eq_singleton_iff.1 hms
      exact ⟨ls, l, hletters, hl⟩
    have hopen : Token.hit ⟨c, false⟩ (unquoted cs) ∈ p.scan Letter.char none (letters (s ++ q :: r ++ (u ++ v))) := by
      rw [hshape, hcross.letters_append, hletters, letters_eq_unquoted hrest, List.append_assoc, List.singleton_append,
        scan_append_skip hp.within (hp.barrier q hq) (hp.skips q hq) Letter.char none ls hl]
      exact List.mem_append_right _ (List.mem_cons_of_mem _ hmem)
    exact opensIn_of_open_hit hopen rfl

end Pattern

theorem Vocabulary.words_stopAtSpaces (table : List Text)
    (h : table ∈ [addVerbs, removeVerbs, statusVerbs, pivots, addStops, conjunctions, possessives]) :
    (Pattern.word table).StopsAtSpaces :=
  ⟨Pattern.word_within table, (words_space table h).1, (words_space table h).2⟩

namespace Clause

open Vocabulary

section
variable {name : Text} (hname : ∀ c ∈ name, isQuote c = false) {c : Char} {cs : Text} (t : Text)
include hname

theorem letters_named : letters (name ++ ' ' :: t) = unquoted name ++ ⟨' ', false⟩ :: letters t := by
  have hspace : isQuote ' ' = false := by decide
  rw [Quote.letters_of_free hname, Quote.letters_cons hspace]
  rfl

/-- Words that a table misses make no difference to whether it has an open hit. -/
theorem opensIn_behind_name {p : Pattern} (hp : p.StopsAtSpaces) (hsilent : p.Silent name) :
    p.opensIn (letters (name ++ ' ' :: t)) = p.opensIn (letters t) := by
  rw [letters_named hname, Pattern.opensIn,
    Pattern.find_append_skip hp.within hp.barrier hp.skips (Pattern.find_of_silent hsilent) rfl, Option.isSome_map]
  rfl

theorem opensIn_at_name {p : Pattern} (hp : p.StopsAtSpaces) (hhit : p.tokens name = [.hit c cs]) :
    p.opensIn (letters (name ++ ' ' :: t)) = true := by
  rw [letters_named hname, Pattern.opensIn, Pattern.find_name hp.within hp.barrier hp.skips hhit]
  rfl

/-- **The window of a verb is all that follows it**, if there is no stop word outside the quotations. -/
theorem verbWindow?_named {verb stop : Pattern} (hverb : verb.StopsAtSpaces) (hhit : verb.tokens name = [.hit c cs])
    {rest : Text} (hstop : stop.Spaced rest) (hnone : stop.opensIn (letters t) = false) :
    verbWindow? verb stop (name ++ ' ' :: t) = some (' ' :: t) := by
  have hend : stop.findAfter ⟨[], unquoted name, ⟨' ', false⟩ :: letters t⟩ = none := by
    rw [Pattern.findAfter, hstop.find_space, Option.map_eq_none_iff]
    simpa [Pattern.opensIn] using hnone
  rw [verbWindow?_eq, letters_named hname, Pattern.find_name hverb.within hverb.barrier hverb.skips hhit, Option.map_some,
    windowAfter, hend]
  exact congrArg (fun u => some (' ' :: u)) (plain_letters t)

/-- **The window of a status change is all between its verb and its pivot**, if there is no pivot outside the quotations
of the text. -/
theorem statusWindow?_named (hhit : statusVerb.tokens name = [.hit c cs]) (hnone : pivot.opensIn (letters t) = false)
    {rest word : Text} (hrest : ∀ c ∈ rest, isQuote c = false) {d : Char} {ds : Text} {more : List (Token Char)}
    (hpivot : pivot.tokens rest = .hit d ds :: more)
    (hword : (statusAlias.find (d :: ds).getLast? (unquoted (more.flatMap Token.items))).map Found.text = some word) :
    statusWindow? (name ++ ' ' :: (t ++ ' ' :: rest)) = some (' ' :: (t ++ [' ']), word) := by
  have hverb : statusVerb.StopsAtSpaces := words_stopAtSpaces _ (by simp)
  have hturns : pivot.StopsAtSpaces := words_stopAtSpaces _ (by simp)
  have hspaced : pivot.Spaced [] := (words_spaced _ (by simp) []).1
  have hbehind : ∀ c ∈ ' ' :: rest, isQuote c = false := List.forall_mem_cons.2 ⟨by decide, hrest⟩
  have hcross : Quote.Uncrossed t (' ' :: rest) := .inr hbehind
  have hquiet : pivot.find none (letters t) = none := by simpa [Pattern.opensIn] using hnone
  have hturn : pivot.find none (unquoted rest) = some ⟨[], unquoted (d :: ds), unquoted (more.flatMap Token.items)⟩ :=
    Pattern.find_unquoted (u := []) hpivot
  have hend : pivot.findAfter ⟨[], unquoted name, ⟨' ', false⟩ :: (letters t ++ ⟨' ', false⟩ :: unquoted rest)⟩ =
      some ⟨⟨' ', false⟩ :: (letters t ++ [⟨' ', false⟩]), unquoted (d :: ds), unquoted (more.flatMap Token.items)⟩ := by
    rw [Pattern.findAfter, hspaced.find_space,
      Pattern.find_append_skip hturns.within hturns.barrier hturns.skips hquiet rfl, hturn]
    simp [Found.behind]
  have hstatus : (statusAlias.findAfter ⟨⟨' ', false⟩ :: (letters t ++ [⟨' ', false⟩]), unquoted (d :: ds),
      unquoted (more.flatMap Token.items)⟩).map Found.text = some word := by
    rw [Pattern.findAfter, Found.lastChar, ← List.getLast?_map, Pattern.char_unquoted]
    exact hword
  have hplain : plain (⟨' ', false⟩ :: (letters t ++ [⟨' ', false⟩])) = ' ' :: (t ++ [' ']) := by
    rw [plain, List.map_cons, List.map_append, Quote.char_letters]
    rfl
  have hletters : letters (name ++ ' ' :: (t ++ ' ' :: rest)) =
      unquoted name ++ ⟨' ', false⟩ :: (letters t ++ ⟨' ', false⟩ :: unquoted rest) := by
    rw [letters_named hname, hcross.letters_append, Pattern.letters_eq_unquoted hbehind]
    rfl
  rw [statusWindow?_eq, hletters, Pattern.find_name hverb.within hverb.barrier hverb.skips hhit, Option.bind_some,
    statusAfter_of_pivot hend, hstatus, Option.some_or, Option.map_some, hplain]

end

/-! ## Three clauses -/

section
variable {t : Text}

theorem actions_added (hstatus : statusVerb.opensIn (letters t) = false) (hstop : addStop.opensIn (letters t) = false) :
    actions ("add ".toList ++ t) = (verbTitles t).map .add := by
  obtain ⟨-, hquiet, hhit⟩ := Plan.wordsAround.add
  have hname : ∀ c ∈ "add".toList, isQuote c = false := Quote.free_of_any (by decide)
  have hset : statusVerb.StopsAtSpaces := words_stopAtSpaces _ (by simp)
  have hverb : addVerb.StopsAtSpaces := words_stopAtSpaces _ (by simp)
  have hspaced : addStop.Spaced [] := (words_spaced _ (by simp) []).1
  have hclause : "add ".toList ++ t = "add".toList ++ ' ' :: t := by simp
  rw [hclause, actions_of_add _ (opensIn_at_name hname t hverb hhit)
    (verbWindow?_named hname t hverb hhit hspaced hstop), verbTitles_space]
  rw [opensIn_behind_name hname t hset hquiet, hstatus]

theorem actions_removed (hstatus : statusVerb.opensIn (letters t) = false) (hadd : addVerb.opensIn (letters t) = false)
    (hstop : removeStop.opensIn (letters t) = false) :
    actions ("remove ".toList ++ t) = (verbTitles t).map .remove := by
  obtain ⟨-, hquiet, hquiet', hhit⟩ := Plan.wordsAround.remove
  have hname : ∀ c ∈ "remove".toList, isQuote c = false := Quote.free_of_any (by decide)
  have hset : statusVerb.StopsAtSpaces := words_stopAtSpaces _ (by simp)
  have hput : addVerb.StopsAtSpaces := words_stopAtSpaces _ (by simp)
  have hverb : removeVerb.StopsAtSpaces := words_stopAtSpaces _ (by simp)
  have hclause : "remove ".toList ++ t = "remove".toList ++ ' ' :: t := by simp
  rw [hclause, actions_of_remove _ _ (opensIn_at_name hname t hverb hhit)
    (verbWindow?_named hname t hverb hhit removeStop_spaced hstop), verbTitles_space]
  · rw [opensIn_behind_name hname t hset hquiet, hstatus]
  · rw [opensIn_behind_name hname t hput hquiet', hadd]

theorem actions_marked (hpivot : pivot.opensIn (letters t) = false) {a : Text × Status} (ha : a ∈ statusAliases) :
    actions ("mark ".toList ++ t ++ " as ".toList ++ a.1) = (statusTitles t).map (.setStatus · a.2.code) := by
  obtain ⟨-, hhit⟩ := Plan.wordsAround.mark
  obtain ⟨⟨hquote, -⟩, hfits, hword, hstatus⟩ := Plan.scan_aliases a ha
  obtain ⟨more, hscan, hbehind⟩ := Plan.tokens_as a.1
  rw [← hbehind] at hword
  have hname : ∀ c ∈ "mark".toList, isQuote c = false := Quote.free_of_any (by decide)
  have hrest := Quote.free_of_any hquote
  have hverb : statusVerb.StopsAtSpaces := words_stopAtSpaces _ (by simp)
  have hwindow := statusWindow?_named hname t hhit hpivot hrest hscan hword
  have hopens := opensIn_at_name hname (t ++ ' ' :: ("as ".toList ++ a.1)) hverb hhit
  have hclause : "mark ".toList ++ t ++ " as ".toList ++ a.1 = "mark".toList ++ ' ' :: (t ++ ' ' :: ("as ".toList ++ a.1)) := by
    simp
  have halias : statusAlias.opensIn (letters ("mark".toList ++ ' ' :: (t ++ ' ' :: ("as ".toList ++ a.1)))) = true := by
    have hlink : ∀ c ∈ " as ".toList, isQuote c = false := Quote.free_of_any (by decide)
    have hfit := Pattern.opensIn_of_fits statusAlias_stops ("mark ".toList ++ t) (by decide) hlink
      (List.forall_mem_append.1 hrest).2 hfits
    rwa [← List.append_assoc, hclause] at hfit
  rw [hclause, actions_of_status hopens halias hwindow, hstatus, statusTitles_spaces]

end

/-- **What the three kinds of clauses read.**  Let a text have no verb that sets or adds, no pivot and no word that ends
lists outside its quotations.  To add it and to remove it is to read the same titles from it: the quoted ones, and then
the others.  To mark it, with any alias of a status, is to read the quoted ones only; the others are lost but for those
that are quoted too.  Where no quotation names a title, the quotes are dropped, and so marking reads what adding does if
there are none. -/
theorem titles_of_three {t : Text}
    (hsteer : ∀ p ∈ [statusVerb, addVerb, addStop, removeStop, pivot], p.opensIn (letters t) = false) :
    let quoted := Title.quotedIn t
    let others := Title.plainIn (Quote.withoutQuoted t)
    let added := Title.distinct (quoted ++ others)
    let marked := Title.distinct (if quoted = [] then Title.plainIn t else quoted)
    actions ("add ".toList ++ t) = added.map .add ∧ actions ("remove ".toList ++ t) = added.map .remove ∧
      (∀ a ∈ statusAliases,
        actions ("mark ".toList ++ t ++ " as ".toList ++ a.1) = marked.map (.setStatus · a.2.code)) ∧
      (quoted ≠ [] →
        added = marked ++ (Title.distinct others).filter fun s => !quoted.any fun u => s.lowercase == u.lowercase) ∧
      ((∀ c ∈ t, isQuote c = false) → marked = added) := by
  intro quoted others added marked
  have hset := hsteer statusVerb (by simp)
  have hpivot := hsteer pivot (by simp)
  have hmarked : statusTitles t = marked := by
    simp only [statusTitles, marked, quoted, List.isEmpty_iff]
  refine ⟨actions_added hset (hsteer addStop (by simp)),
    actions_removed hset (hsteer addVerb (by simp)) (hsteer removeStop (by simp)), fun a ha => ?_, fun hne => ?_,
    fun hfree => ?_⟩
  · rw [actions_marked hpivot ha, hmarked]
  · have hquoted : marked = Title.distinct quoted := congrArg Title.distinct (if_neg hne)
    rw [hquoted]
    exact distinctBy_append Text.lowercase quoted others
  · have hnone : quoted = [] := Title.quotedIn_of_free hfree
    have hothers : others = Title.plainIn t := congrArg Title.plainIn (Quote.withoutQuoted_of_free hfree)
    have hquoted : marked = Title.distinct (Title.plainIn t) := congrArg Title.distinct (if_pos hnone)
    rw [hquoted, show added = Title.distinct (quoted ++ others) from rfl, hnone, hothers, List.nil_append]

/-- A quoted title, the same one without quotes, and another. -/
theorem titles_of_three_mixed :
    let t := "\"Heat\", heat, my Alien".toList
    (∀ p ∈ [statusVerb, addVerb, addStop, removeStop, pivot], p.opensIn (letters t) = false) ∧
      actions ("add ".toList ++ t) = [.add "Heat".toList, .add "Alien".toList] ∧
      actions ("mark ".toList ++ t ++ " as ".toList ++ "déjà vu".toList) =
        [.setStatus "Heat".toList Status.seen.code] := by
  intro t
  have hsteer : ∀ p ∈ [statusVerb, addVerb, addStop, removeStop, pivot], p.opensIn (letters t) = false := by
    decide +kernel
  have halias : ("déjà vu".toList, Status.seen) ∈ statusAliases := by decide
  have hread : Title.quotedIn t = ["Heat".toList] ∧
      Title.distinct (["Heat".toList] ++ Title.plainIn (Quote.withoutQuoted t)) = ["Heat".toList, "Alien".toList] := by
    decide +kernel
  obtain ⟨hquoted, hdistinct⟩ := hread
  obtain ⟨hadd, -, hmark, -⟩ := titles_of_three hsteer
  rw [hquoted, hdistinct] at hadd
  have hmark := hmark _ halias
  rw [hquoted, if_neg (List.cons_ne_nil _ _)] at hmark
  exact ⟨hsteer, hadd, hmark⟩

/-- A comma-separated title without quotes is added and removed, but not marked, next to one with quotes.  None of the
patterns has anything to do with it. -/
theorem mark_loses :
    let t := "\"Heat\", Alien".toList
    let titles := fun clause => (actions clause).map Action.title
    Quote.Closed t ∧
      (∀ p ∈ [delimiter, addVerb, removeVerb, statusVerb, statusAlias, addStop, removeStop, pivot],
        p.opensIn (letters t) = false) ∧
      titles ("add ".toList ++ t) = ["Heat".toList, "Alien".toList] ∧
      titles ("remove ".toList ++ t) = ["Heat".toList, "Alien".toList] ∧
      titles ("mark ".toList ++ t ++ " as seen".toList) = ["Heat".toList] := by decide +kernel

/-- Around a blank quotation two titles are taken for one. -/
example : actions "add Heat \"\" Alien".toList = [.add "Heat".toList, .add "Alien".toList] ∧
    actions "mark Heat \"\" Alien as seen".toList = [.setStatus "Heat Alien".toList Status.seen.code] := by
  decide +kernel

end Clause
end WatchList
