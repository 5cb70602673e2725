import WatchList.Proofs.Joining
import WatchList.Proofs.PlainTitles
import WatchList.Proofs.Recognition
/-!
# Lists of plain titles

Plain titles need no quotes.  An instruction that has a verb, plain titles with commas between them and the words that
end them gives one action for each title, in order and each title once (`Plan.ofText_plain_list`), if no title has a
word in it that steers the reading of such an instruction.

Each pattern that steers the reading hits the words around the list and nothing in it, so the window is the list between
two spaces (`Clause.verbWindow?_listing`, `Clause.statusWindow?_listing`).
-/
namespace WatchList

open Pattern (unquoted)

/-! ## Around a list -/

namespace Pattern

variable {p : Pattern} {name list rest : Text}

theorem tokens_append_space (hw : p.Within) (hb : p.Barrier ' ') (hs : p.Skips ' ') (name t : Text) :
    p.tokens (name ++ ' ' :: t) = p.tokens name ++ .gap ' ' :: p.tokens t :=
  scan_append_skip hw hb hs id none name (x := ' ') rfl t

theorem silent_listing (hp : p.Spaced rest) (hb : p.Barrier ' ') (hname : p.Silent name) (hlist : p.Silent list)
    (hlast : list.getLast?.any isBlank = false) (hrest : p.Silent rest) :
    p.Silent (name ++ ' ' :: (list ++ ' ' :: rest)) := by
  rw [Silent, tokens_append_space hp.within hb hp.skips, hname, tokens, hp.scan_append hlast, ← tokens, hlist, hrest]
  simp

theorem unquoted_append_space (name t : Text) :
    unquoted (name ++ ' ' :: t) = unquoted name ++ ⟨' ', false⟩ :: unquoted t := by
  rw [unquoted, List.map_append]
  rfl

/-- The word at the beginning of an instruction is found first. -/
theorem find_name (hw : p.Within) (hb : p.Barrier ' ') (hs : p.Skips ' ') {c : Char} {cs : Text}
    (hname : p.tokens name = [.hit c cs]) (ls : List Letter) :
    p.find none (unquoted name ++ ⟨' ', false⟩ :: ls) = some ⟨[], unquoted name, ⟨' ', false⟩ :: ls⟩ := by
  have hscan : p.scan id none name = ([] : Text).map .gap ++ .hit c cs :: [] := hname
  have hitems : c :: cs = name := by
    have h := items_scan p id none name
    rw [← tokens, hname, List.flatMap_singleton] at h
    exact h
  rw [find_append_skip_of_some hw hb hs (find_unquoted hscan) rfl, hitems]
  rfl

/-- What ends a list is found behind it. -/
theorem find_behind_list (hp : p.Spaced rest) (hlist : p.Silent list) (hlast : list.getLast?.any isBlank = false)
    {c : Char} {cs : Text} {ts : List (Token Char)} (hrest : p.tokens rest = .hit c cs :: ts) (before : Option Char) :
    p.find before (unquoted (' ' :: (list ++ ' ' :: rest))) =
      some ⟨unquoted (' ' :: (list ++ [' '])), unquoted (c :: cs), unquoted (ts.flatMap Token.items)⟩ := by
  have hscan := hp.scan_between hlist hlast before
  rw [hrest] at hscan
  exact find_unquoted hscan

theorem opensIn_of_hit {t : Text} {c : Char} {cs : Text} (h : Token.hit c cs ∈ p.tokens t) :
    p.opensIn (unquoted t) = true := by
  have hopen : Token.hit ⟨c, false⟩ (unquoted cs) ∈ p.scan Letter.char none (unquoted t) := by
    rw [scan_unquoted]
    exact List.mem_map_of_mem h
  exact opensIn_of_open_hit hopen rfl

end Pattern

/-! ## The vocabulary around a list -/

namespace Vocabulary

theorem delimiter_spaced (rest : Text) : delimiter.Spaced rest :=
  delimiter_keepsToWords.spaced delimiter_stops.within delimiter_skips_space rest

theorem delimiter_skips_comma : delimiter.Skips ',' :=
  ((properWords_conjunctions.barrier rfl).2).orElse (Pattern.one_skips rfl)

theorem removeStop_spaced : removeStop.Spaced "from my list".toList := by
  have htable : ∀ w ∈ removeStops, w.head?.any (· != ' ') = true ∧ Pattern.endsBefore "from my list".toList w = true := by
    decide
  exact Pattern.word_spaced rfl htable

theorem removeStop_comma : removeStop.Barrier ',' ∧ removeStop.Skips ',' := by
  have hclear : ∀ w ∈ removeStops, Pattern.Clear ',' w := by decide
  exact ⟨Pattern.word_barrier rfl hclear, Pattern.word_skips rfl hclear (by decide)⟩

end Vocabulary

namespace Title

/-- A plain title is one clause, or in one. -/
theorem Plain.silent_delimiter {t : Text} (h : Plain t) : Vocabulary.delimiter.Silent t := by
  refine Pattern.silent_of_no_hit fun c cs hhit => ?_
  obtain ⟨u, v, rfl, hfit⟩ := Pattern.place_of_hit_mem Vocabulary.delimiter_stops.within hhit
  rw [Option.or_none, Option.map_id, id_eq, List.map_id] at hfit
  rcases Option.or_eq_some_iff.1 hfit with hword | ⟨-, hmark⟩
  · have htaken : Vocabulary.conjunction.taken id u.getLast? (c :: cs ++ v) ≠ 0 := by
      rw [Pattern.taken, List.map_id, hword]
      exact Nat.succ_ne_zero _
    have hoccurs := Pattern.occursIn_of_taken Vocabulary.conjunction_stops.within htaken
    rw [← List.append_assoc, h.unjoined] at hoccurs
    cases hoccurs
  · have hmem : c ∈ u ++ (c :: cs) ++ v := by simp
    have hpick : (c == '.' || c == ';') = true := by
      cases hc : (c == '.' || c == ';') with
      | true => rfl
      | false => simp [Pattern.one, hc] at hmark
    rcases Bool.or_eq_true_iff.1 hpick with hc | hc
    · exact h.unparted.2.1 (beq_iff_eq.1 hc ▸ hmem)
    · exact h.unparted.2.2 (beq_iff_eq.1 hc ▸ hmem)

theorem quotedIn_of_free {t : Text} (h : ∀ c ∈ t, isQuote c = false) : quotedIn t = [] := by
  rw [quotedIn, Quote.inners_of_free h]
  rfl

end Title

theorem Quote.withoutQuoted_of_free {t : Text} (h : ∀ c ∈ t, isQuote c = false) : withoutQuoted t = t := by
  rw [withoutQuoted, parts, partsFrom_of_free h none, List.flatMap_map]
  exact List.flatMap_singleton' t

namespace Clause

open Vocabulary

/-- An instruction about a list of titles. -/
def listing (name : Text) (ts : List Text) (rest : Text) : Text :=
  name ++ ' ' :: (Text.joined ", ".toList ts ++ ' ' :: rest)

/-- The window of such an instruction. -/
def listWindow (ts : List Text) : Text := ' ' :: (Text.joined ", ".toList ts ++ [' '])

section
variable {ts : List Text} (hts : ∀ t ∈ ts, Title.Plain t) (hne : ts ≠ [])
include hts

theorem free_listing (name rest : Text) (hname : name.any isQuote = false) (hrest : rest.any isQuote = false) :
    ∀ c ∈ listing name ts rest, isQuote c = false := by
  have hspace : isQuote ' ' = false := by decide
  intro c hc
  rcases List.mem_append.1 hc with hc | hc
  · exact Quote.free_of_any hname c hc
  · rcases List.mem_cons.1 hc with rfl | hc
    · exact hspace
    · rcases List.mem_append.1 hc with hc | hc
      · exact Title.free_list hts c hc
      · rcases List.mem_cons.1 hc with rfl | hc
        · exact hspace
        · exact Quote.free_of_any hrest c hc

include hne

theorem titles_listWindow : verbTitles (listWindow ts) = Title.distinct ts ∧
    statusTitles (listWindow ts) = Title.distinct ts := by
  have hfree : ∀ c ∈ listWindow ts, isQuote c = false := free_listing hts [] [] rfl rfl
  have hplain : Title.plainIn (listWindow ts) = ts := Title.plainIn_joined hts hne
  constructor
  · rw [verbTitles, Title.quotedIn_of_free hfree, Quote.withoutQuoted_of_free hfree, hplain]
    rfl
  · rw [statusTitles, Title.quotedIn_of_free hfree, hplain]
    rfl

end

/-- Such an instruction is one clause. -/
theorem split_listing {ts : List Text} (hts : ∀ t ∈ ts, Title.Plain t) {name rest : Text}
    (hfree : ∀ c ∈ listing name ts rest, isQuote c = false)
    (hname : delimiter.Silent name ∧ name.head?.any isBlank = false ∧ name ≠ [])
    (hrest : delimiter.Silent rest ∧ rest.getLast?.any isBlank = false ∧ rest ≠ []) :
    split (listing name ts rest) = [listing name ts rest] := by
  obtain ⟨hsilent, hhead, hne⟩ := hname
  obtain ⟨hsilent', hlast, hne'⟩ := hrest
  have hspaced := delimiter_spaced rest
  have hspace := delimiter_keepsToWords.barrier (b := ' ') (by decide)
  have hlist := hspaced.silent_joined (delimiter_keepsToWords.barrier (by decide)) delimiter_skips_comma
    fun t ht => (hts t ht).silent_delimiter
  have hwhole : delimiter.Silent (listing name ts rest) :=
    Pattern.silent_listing hspaced hspace hsilent hlist (Title.isBlank_last_list hts) hsilent'
  have hbegin : (listing name ts rest).head?.any isBlank = false := by
    obtain ⟨c, s, rfl⟩ := List.exists_cons_of_ne_nil hne
    exact hhead
  have hend : (listing name ts rest).getLast?.any isBlank = false := by
    obtain ⟨s, c, rfl⟩ := (List.eq_nil_or_concat rest).resolve_left hne'
    rw [List.concat_eq_append] at hlast ⊢
    have hshape : listing name ts (s ++ [c]) = (name ++ ' ' :: (Text.joined ", ".toList ts ++ ' ' :: s)) ++ [c] := by
      simp [listing]
    rw [hshape, List.getLast?_concat]
    rwa [List.getLast?_concat] at hlast
  have hfull : (!(listing name ts rest).isEmpty) = true := by
    obtain ⟨c, s, rfl⟩ := List.exists_cons_of_ne_nil hne
    rfl
  rw [split, hwhole.cut_eq hfree, List.map_singleton, Text.trim_eq_self hbegin hend]
  exact List.filter_cons_of_pos hfull

/-- **The window of a verb at the beginning is the list**, if the stop word is the first one behind it. -/
theorem verbWindow?_listing {verb stop : Pattern} {ts : List Text} {name rest : Text} {c d : Char} {cs ds : Text}
    {more : List (Token Char)} (hfree : ∀ c ∈ listing name ts rest, isQuote c = false) (hverb : verb.Within)
    (hspace : verb.Barrier ' ' ∧ verb.Skips ' ') (hname : verb.tokens name = [.hit c cs]) (hstop : stop.Spaced rest)
    (hlist : stop.Silent (Text.joined ", ".toList ts))
    (hlast : (Text.joined ", ".toList ts).getLast?.any isBlank = false) (hrest : stop.tokens rest = .hit d ds :: more) :
    verbWindow? verb stop (listing name ts rest) = some (listWindow ts) := by
  have hfind := Pattern.find_name hverb hspace.1 hspace.2 hname (unquoted (Text.joined ", ".toList ts ++ ' ' :: rest))
  have hend : stop.findAfter ⟨[], unquoted name, ⟨' ', false⟩ :: unquoted (Text.joined ", ".toList ts ++ ' ' :: rest)⟩ =
      some ⟨unquoted (listWindow ts), unquoted (d :: ds), unquoted (more.flatMap Token.items)⟩ :=
    Pattern.find_behind_list hstop hlist hlast hrest _
  rw [verbWindow?_eq, Pattern.letters_eq_unquoted hfree, listing, Pattern.unquoted_append_space, hfind, Option.map_some,
    windowAfter, hend]
  exact congrArg some (Pattern.char_unquoted _)

/-- **The window of a status change at the beginning is the list**, if the pivot is the first one behind it, and the
status is the first one behind the pivot. -/
theorem statusWindow?_listing {ts : List Text} {name rest word : Text} {c d : Char} {cs ds : Text}
    {more : List (Token Char)} (hfree : ∀ c ∈ listing name ts rest, isQuote c = false)
    (hname : statusVerb.tokens name = [.hit c cs]) (hlist : pivot.Silent (Text.joined ", ".toList ts))
    (hlast : (Text.joined ", ".toList ts).getLast?.any isBlank = false) (hrest : pivot.tokens rest = .hit d ds :: more)
    (hword : (statusAlias.find (d :: ds).getLast? (unquoted (more.flatMap Token.items))).map Found.text = some word) :
    statusWindow? (listing name ts rest) = some (listWindow ts, word) := by
  have hedge : statusVerb.Barrier ' ' ∧ statusVerb.Skips ' ' := words_space _ (by simp)
  have hverb := Pattern.find_name statusVerb_stops.within hedge.1 hedge.2 hname
    (unquoted (Text.joined ", ".toList ts ++ ' ' :: rest))
  have hpivot : pivot.findAfter ⟨[], unquoted name, ⟨' ', false⟩ :: unquoted (Text.joined ", ".toList ts ++ ' ' :: rest)⟩ =
      some ⟨unquoted (listWindow ts), unquoted (d :: ds), unquoted (more.flatMap Token.items)⟩ :=
    Pattern.find_behind_list (words_spaced _ (by simp) rest).1 hlist hlast hrest _
  have hstatus : (statusAlias.findAfter
      ⟨unquoted (listWindow ts), unquoted (d :: ds), unquoted (more.flatMap Token.items)⟩).map Found.text =
      some word := by
    rw [Pattern.findAfter, Found.lastChar, ← List.getLast?_map, Pattern.char_unquoted]
    exact hword
  rw [statusWindow?_eq, Pattern.letters_eq_unquoted hfree, listing, Pattern.unquoted_append_space, hverb, Option.bind_some,
    statusAfter_of_pivot hpivot, hstatus, Option.some_or, Option.map_some]
  exact congrArg (fun w => some (w, word)) (Pattern.char_unquoted _)

section
variable {clause window : Text}

theorem actions_of_add (hstatus : statusVerb.opensIn (Quote.letters clause) = false)
    (hadd : addVerb.opensIn (Quote.letters clause) = true) (hwindow : verbWindow? addVerb addStop clause = some window) :
    actions clause = (verbTitles window).map .add := by
  have hkind : kind clause = .add := by simp [kind, hstatus, hadd]
  rw [actions, hkind]
  simp only [hwindow, Option.map_some, Option.getD_some]

theorem actions_of_remove (hstatus : statusVerb.opensIn (Quote.letters clause) = false)
    (hadd : addVerb.opensIn (Quote.letters clause) = false) (hremove : removeVerb.opensIn (Quote.letters clause) = true)
    (hwindow : verbWindow? removeVerb removeStop clause = some window) :
    actions clause = (verbTitles window).map .remove := by
  have hkind : kind clause = .remove := by simp [kind, hstatus, hadd, hremove]
  rw [actions, hkind]
  simp only [hwindow, Option.map_some, Option.getD_some]

theorem actions_of_status (hverb : statusVerb.opensIn (Quote.letters clause) = true)
    (halias : statusAlias.opensIn (Quote.letters clause) = true) {word : Text}
    (hwindow : statusWindow? clause = some (window, word)) :
    actions clause = (statusTitles window).map (.setStatus · (Status.ofWord word).code) := by
  have hkind : kind clause = .statusChange := by simp [kind, hverb, halias]
  rw [actions, hkind]
  simp only [hwindow, Option.map_some, Option.getD_some]

end

end Clause

/-! ## Three instructions -/

namespace Plan

open Clause (listing listWindow)
open Vocabulary

theorem ofText_of_single {clause : Text} (h : Clause.split clause = [clause]) : ofText clause = Clause.actions clause := by
  rw [ofText, h, List.flatMap_singleton]

/-- What the patterns find in the words around a list: the verb, and the word that ends the list. -/
structure WordsAround : Prop where
  add : delimiter.Silent "add".toList ∧ statusVerb.Silent "add".toList ∧ addVerb.tokens "add".toList = [.hit 'a' ['d', 'd']]
  toMyList : delimiter.Silent "to my list".toList ∧ statusVerb.Silent "to my list".toList ∧
    addStop.tokens "to my list".toList = .hit 't' ['o'] :: " my list".toList.map .gap
  remove : delimiter.Silent "remove".toList ∧ statusVerb.Silent "remove".toList ∧ addVerb.Silent "remove".toList ∧
    removeVerb.tokens "remove".toList = [.hit 'r' "emove".toList]
  fromMyList : delimiter.Silent "from my list".toList ∧ statusVerb.Silent "from my list".toList ∧
    addVerb.Silent "from my list".toList ∧
    removeStop.tokens "from my list".toList = .hit 'f' "rom".toList :: " my list".toList.map .gap
  mark : delimiter.Silent "mark".toList ∧ statusVerb.tokens "mark".toList = [.hit 'm' "ark".toList]
  asPivot : pivot.tokens "as".toList = [.hit 'a' ['s']]

theorem wordsAround : WordsAround where
  add := by decide +kernel
  toMyList := by decide +kernel
  remove := by decide +kernel
  fromMyList := by decide +kernel
  mark := by decide +kernel
  asPivot := by decide +kernel

/-- What the patterns find in an alias behind a pivot: the alias. -/
theorem scan_aliases : ∀ a ∈ statusAliases,
    (("as ".toList ++ a.1).any isQuote = false ∧ ("as ".toList ++ a.1).getLast?.any isBlank = false ∧
      delimiter.Silent ("as ".toList ++ a.1)) ∧
    statusAlias.taken id (some ' ') a.1 ≠ 0 ∧
    (statusAlias.find (some 's') (unquoted (' ' :: a.1))).map Found.text = some a.1 ∧ Status.ofWord a.1 = a.2 := by
  decide +kernel

/-- The pivot is hit in front of any words. -/
theorem tokens_as (word : Text) :
    ∃ more, pivot.tokens ("as ".toList ++ word) = .hit 'a' ['s'] :: more ∧ more.flatMap Token.items = ' ' :: word := by
  have has := wordsAround.asPivot
  have hspace := words_space pivots (by simp)
  have hparts := Pattern.tokens_append_space pivot_stops.within hspace.1 hspace.2 "as".toList word
  rw [has] at hparts
  refine ⟨.gap ' ' :: pivot.tokens word, hparts, ?_⟩
  rw [List.flatMap_cons, Pattern.tokens, Pattern.items_scan]
  rfl

section
variable {ts : List Text} (hts : ∀ t ∈ ts, Title.Plain t)
include hts

/-- A table of words that hits no title and not the words around them does not hit the instruction. -/
theorem opensIn_listing {table : List Text}
    (htable : table ∈ [addVerbs, removeVerbs, statusVerbs, pivots, addStops, conjunctions, possessives])
    (h : ∀ t ∈ ts, (Pattern.word table).occursIn t = false) {name rest : Text} (hname : (Pattern.word table).Silent name)
    (hrest : (Pattern.word table).Silent rest) (hfree : ∀ c ∈ listing name ts rest, isQuote c = false) :
    (Pattern.word table).opensIn (Quote.letters (listing name ts rest)) = false := by
  obtain ⟨hspaced, hedge⟩ := words_spaced table htable rest
  have hlist := words_silent_joined table htable h
  have hsilent := Pattern.silent_listing hspaced (hedge ' ' (by decide)).1 hname hlist (Title.isBlank_last_list hts) hrest
  rw [Pattern.opensIn, Pattern.letters_eq_unquoted hfree, listing, Pattern.find_of_silent hsilent]
  rfl

omit hts in
/-- The verb at the beginning of an instruction counts. -/
theorem opensIn_name {table : List Text}
    (htable : table ∈ [addVerbs, removeVerbs, statusVerbs, pivots, addStops, conjunctions, possessives]) {c : Char}
    {cs name rest : Text} (hname : (Pattern.word table).tokens name = [.hit c cs])
    (hfree : ∀ c ∈ listing name ts rest, isQuote c = false) :
    (Pattern.word table).opensIn (Quote.letters (listing name ts rest)) = true := by
  obtain ⟨hbarrier, hskips⟩ := (words_spaced table htable []).2 ' ' (by decide)
  have hfind := Pattern.find_name (Pattern.word_within table) hbarrier hskips hname
    (unquoted (Text.joined ", ".toList ts ++ ' ' :: rest))
  rw [Pattern.opensIn, Pattern.letters_eq_unquoted hfree, listing, Pattern.unquoted_append_space, hfind]
  rfl

omit hts in
/-- The status at the end of an instruction counts. -/
theorem opensIn_alias {a name : Text} (ha : statusAlias.taken id (some ' ') a ≠ 0)
    (hfree : ∀ c ∈ listing name ts ("as ".toList ++ a), isQuote c = false) :
    statusAlias.opensIn (Quote.letters (listing name ts ("as ".toList ++ a))) = true := by
  have hshape : listing name ts ("as ".toList ++ a) =
      (name ++ ' ' :: (Text.joined ", ".toList ts ++ " as".toList)) ++ [' '] ++ a := by simp [listing]
  have hhit : ∃ c cs, Token.hit c cs ∈ statusAlias.tokens (listing name ts ("as ".toList ++ a)) := by
    rw [hshape]
    refine Pattern.hit_mem_of_taken statusAlias_stops.within ?_
    rw [List.getLast?_concat]
    exact ha
  obtain ⟨c, cs, hhit⟩ := hhit
  rw [Pattern.letters_eq_unquoted hfree]
  exact Pattern.opensIn_of_hit hhit

variable (hne : ts ≠ [])
include hne

theorem ofText_add_list (h : ∀ t ∈ ts, statusVerb.occursIn t = false ∧ addStop.occursIn t = false) :
    ofText (listing "add".toList ts "to my list".toList) = (Title.distinct ts).map .add := by
  obtain ⟨hname, hstatus, hverb⟩ := wordsAround.add
  obtain ⟨hrest, hstatus', hstop⟩ := wordsAround.toMyList
  have hfree := Clause.free_listing hts "add".toList "to my list".toList (by decide) (by decide)
  have hsplit := Clause.split_listing hts hfree ⟨hname, by decide, by decide⟩ ⟨hrest, by decide, by decide⟩
  have hquiet := opensIn_listing hts (by simp) (fun t ht => (h t ht).1) hstatus hstatus' hfree
  have hopens := opensIn_name (by simp) hverb hfree
  have hspaced := (words_spaced addStops (by simp) "to my list".toList).1
  have hlist := words_silent_joined addStops (by simp) fun t ht => (h t ht).2
  have hwindow := Clause.verbWindow?_listing hfree addVerb_stops.within (words_space _ (by simp))
    hverb hspaced hlist (Title.isBlank_last_list hts) hstop
  rw [ofText_of_single hsplit, Clause.actions_of_add hquiet hopens hwindow, (Clause.titles_listWindow hts hne).1]

theorem ofText_remove_list (h : ∀ t ∈ ts, statusVerb.occursIn t = false ∧ addVerb.occursIn t = false ∧
    removeStop.occursIn t = false) :
    ofText (listing "remove".toList ts "from my list".toList) = (Title.distinct ts).map .remove := by
  obtain ⟨hname, hstatus, hadd, hverb⟩ := wordsAround.remove
  obtain ⟨hrest, hstatus', hadd', hstop⟩ := wordsAround.fromMyList
  have hfree := Clause.free_listing hts "remove".toList "from my list".toList (by decide) (by decide)
  have hsplit := Clause.split_listing hts hfree ⟨hname, by decide, by decide⟩ ⟨hrest, by decide, by decide⟩
  have hquiet := opensIn_listing hts (by simp) (fun t ht => (h t ht).1) hstatus hstatus' hfree
  have hquiet' := opensIn_listing hts (by simp) (fun t ht => (h t ht).2.1) hadd hadd' hfree
  have hopens := opensIn_name (by simp) hverb hfree
  have hlist := removeStop_spaced.silent_joined removeStop_comma.1 removeStop_comma.2 fun t ht =>
    Pattern.silent_of_occursIn (h t ht).2.2
  have hwindow := Clause.verbWindow?_listing hfree removeVerb_stops.within
    (words_space _ (by simp)) hverb removeStop_spaced hlist (Title.isBlank_last_list hts) hstop
  rw [ofText_of_single hsplit, Clause.actions_of_remove hquiet hquiet' hopens hwindow, (Clause.titles_listWindow hts hne).1]

theorem ofText_mark_list (h : ∀ t ∈ ts, pivot.occursIn t = false) {a : Text × Status} (ha : a ∈ statusAliases) :
    ofText (listing "mark".toList ts ("as ".toList ++ a.1)) = (Title.distinct ts).map (.setStatus · a.2.code) := by
  obtain ⟨hname, hverb⟩ := wordsAround.mark
  obtain ⟨⟨hquote, hlastRest, hrest⟩, hfits, hword, hstatus⟩ := scan_aliases a ha
  have hfree := Clause.free_listing hts "mark".toList ("as ".toList ++ a.1) (by decide) hquote
  have hsplit := Clause.split_listing hts hfree ⟨hname, by decide, by decide⟩ ⟨hrest, hlastRest, by simp⟩
  have hopens := opensIn_name (by simp) hverb hfree
  have hlist := words_silent_joined pivots (by simp) h
  obtain ⟨more, hscan, hbehind⟩ := tokens_as a.1
  rw [← hbehind] at hword
  have hwindow := Clause.statusWindow?_listing hfree hverb hlist (Title.isBlank_last_list hts) hscan hword
  rw [ofText_of_single hsplit, Clause.actions_of_status hopens (opensIn_alias hfits hfree) hwindow, hstatus,
    (Clause.titles_listWindow hts hne).2]

end

/-- **A list of plain titles gives one action for each title**, in order and each title once: after `add` or `remove`,
or with the status of an alias after `mark`, if no title has a verb in it that goes first or a word that ends lists. -/
theorem ofText_plain_list {ts : List Text} (hne : ts ≠ []) (hts : ∀ t ∈ ts, Title.Plain t) :
    ((∀ t ∈ ts, statusVerb.occursIn t = false ∧ addStop.occursIn t = false) →
      ofText ("add ".toList ++ Text.joined ", ".toList ts ++ " to my list".toList) = (Title.distinct ts).map .add) ∧
    ((∀ t ∈ ts, statusVerb.occursIn t = false ∧ addVerb.occursIn t = false ∧ removeStop.occursIn t = false) →
      ofText ("remove ".toList ++ Text.joined ", ".toList ts ++ " from my list".toList) =
        (Title.distinct ts).map .remove) ∧
    ((∀ t ∈ ts, pivot.occursIn t = false) → ∀ a ∈ statusAliases,
      ofText ("mark ".toList ++ Text.joined ", ".toList ts ++ " as ".toList ++ a.1) =
        (Title.distinct ts).map (.setStatus · a.2.code)) := by
  refine ⟨fun h => ?_, fun h => ?_, fun h a ha => ?_⟩
  · have hread := ofText_add_list hts hne h
    simpa [listing] using hread
  · have hread := ofText_remove_list hts hne h
    simpa [listing] using hread
  · have hread := ofText_mark_list hts hne h ha
    simpa [listing] using hread

theorem ofText_plain_list_respelled :
    ofText "add The Matrix, Seen, the matrix to my list".toList = [.add "The Matrix".toList, .add "Seen".toList] ∧
      ofText "remove The Matrix, Seen, the matrix from my list".toList =
        [.remove "The Matrix".toList, .remove "Seen".toList] ∧
      ofText "mark The Matrix, Seen, the matrix as déjà vu".toList =
        [.setStatus "The Matrix".toList Status.seen.code, .setStatus "Seen".toList Status.seen.code] := by
  have hlist : Text.joined ", ".toList ["The Matrix".toList, "Seen".toList, "the matrix".toList] =
      "The Matrix, Seen, the matrix".toList := by decide +kernel
  have hdistinct : Title.distinct ["The Matrix".toList, "Seen".toList, "the matrix".toList] =
      ["The Matrix".toList, "Seen".toList] := by decide +kernel
  obtain ⟨hadd, hremove, hmark⟩ := ofText_plain_list
    (List.cons_ne_nil "The Matrix".toList ["Seen".toList, "the matrix".toList]) (by decide +kernel)
  have hadd := hadd (by decide +kernel)
  have hremove := hremove (by decide +kernel)
  have hmark := hmark (by decide +kernel) ("déjà vu".toList, .seen) (by decide +kernel)
  rw [hlist, hdistinct] at hadd hremove hmark
  exact ⟨hadd, hremove, hmark⟩

end Plan
end WatchList
