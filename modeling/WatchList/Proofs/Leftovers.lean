import WatchList.Proofs.PlainLists
import WatchList.Proofs.Thinning
import WatchList.Proofs.Weighing
/-!
# What is left in a title

Filler is dropped in one pass: the mentions of the list from left to right, then the possessives.  No possessive is left.
A mention can be left: of *the my list list* the pass drops *my list*, and what stood around it meets in *the list*
(`Title.the_list_left`).  Where no mention tears a word, that is the only way (`Title.withoutFiller_leftovers`): with a comma
where a mention was dropped, which keeps apart what stood around it, the title mentions no list.  Possessives that are
dropped bring no mention together, as a possessive in front of a word for a list makes a mention itself
(`Vocabulary.mentions_of_unowned`).  A mention that tears a word may leave another one behind it: *my list d'enviethe list*
becomes *the list* as well.

So to drop filler once more changes a title exactly if the title mentions the list.
-/
namespace WatchList

open Text (IsRun lead strands words wordRuns)

namespace Vocabulary

/-- The words that are no possessives. -/
def unowned (g : List Text) : List Text := g.filter fun w => !possessives.contains (w.map foldLetter)

theorem unowned_cons (w : Text) (g : List Text) :
    unowned (w :: g) = if w.map foldLetter ∈ possessives then unowned g else w :: unowned g := by
  rw [unowned, List.filter_cons, ← unowned]
  split <;> simp_all

/-! ## No mention comes of dropping possessives -/

/-- Behind the first word of a name for a list comes nothing or another name for it. -/
theorem tail_listNouns : ∀ n ∈ listNouns, (words n).tail = [] ∨ ∃ m ∈ listNouns, words m = (words n).tail := by
  decide +kernel

theorem owners_of_possessives {w : Text} (h : w ∈ possessives) : owners.contains w = true :=
  List.contains_iff_mem.2 (List.mem_append_left listArticles h)

/-- Where the words that are no possessives begin with a name for the list, so do all words, or some possessive stands in
front of a name. -/
theorem prefix_or_mentions {n : Text} (hn : n ∈ listNouns) {g : List Text}
    (h : words n <+: (unowned g).map (List.map foldLetter)) :
    words n <+: g.map (List.map foldLetter) ∨ mentions g = true := by
  induction g generalizing n with
  | nil => exact .inl h
  | cons v g ih =>
    by_cases hv : v.map foldLetter ∈ possessives
    · rw [unowned_cons, if_pos hv] at h
      have howner := owners_of_possessives hv
      refine .inr ?_
      rw [mentions, howner, Bool.true_and, Bool.or_eq_true]
      refine (ih hn h).imp (fun hnext => ?_) id
      exact namesList_iff.2 ⟨n, hn, hnext⟩
    · rw [unowned_cons, if_neg hv, List.map_cons] at h
      rw [List.map_cons]
      have htail := tail_listNouns n hn
      cases hwords : words n with
      | nil => exact .inl List.nil_prefix
      | cons w ws =>
        rw [hwords, List.cons_prefix_cons] at h
        rw [hwords, List.tail_cons] at htail
        obtain ⟨rfl, h⟩ := h
        rcases htail with rfl | ⟨m, hm, rfl⟩
        · exact .inl (List.cons_prefix_cons.2 ⟨rfl, List.nil_prefix⟩)
        · refine (ih hm h).imp (fun hnext => List.cons_prefix_cons.2 ⟨rfl, hnext⟩) fun hlater => ?_
          rw [mentions, hlater, Bool.or_true]

/-- **Words mention the list if they do without their possessives.** -/
theorem mentions_of_unowned {g : List Text} (h : mentions (unowned g) = true) : mentions g = true := by
  induction g with
  | nil => exact h
  | cons w g ih =>
    by_cases hw : w.map foldLetter ∈ possessives
    · rw [unowned_cons, if_pos hw] at h
      rw [mentions, ih h, Bool.or_true]
    · rw [unowned_cons, if_neg hw, mentions, Bool.or_eq_true, Bool.and_eq_true] at h
      rw [mentions, Bool.or_eq_true, Bool.and_eq_true]
      rcases h with ⟨howner, hnames⟩ | hlater
      · obtain ⟨n, hn, hnext⟩ := namesList_iff.1 hnames
        refine (prefix_or_mentions hn hnext).imp (fun hfront => ⟨howner, ?_⟩) id
        exact namesList_iff.2 ⟨n, hn, hfront⟩
      · exact .inr (ih hlater)

/-! ## No mention is left between the mentions that are dropped -/

theorem namesList_mono {g g' : List Text} (h : g <+: g') (hg : namesList g = true) : namesList g' = true := by
  obtain ⟨n, hn, hnext⟩ := namesList_iff.1 hg
  exact namesList_iff.2 ⟨n, hn, hnext.trans (h.map _)⟩

/-- The first strand with commas is a part of the first strand of the text, so that a mention in it was one of the text:
with a comma in the place of each mention no strand mentions the list, if no word was torn. -/
theorem walk_commas {t : Text} {ts : List (Token Char)} (hwalk : Pattern.Walk fillerPhrase t ts) :
    Token.torn ts = false → (strands (ts.flatMap (Token.filled [',']))).any mentions = false ∧
      lead (ts.flatMap (Token.filled [','])) <+: lead t := by
  induction hwalk with
  | nil => exact fun _ => ⟨rfl, List.prefix_rfl⟩
  | @gap c t ts hc _ ih =>
    intro htorn
    obtain ⟨hnone, hlead⟩ := ih htorn
    rw [List.flatMap_cons, Token.filled, List.singleton_append]
    rcases Text.strands_gap hc with hgap | hgap
    · rw [lead, lead, hgap, hgap]
      exact ⟨hnone, hlead⟩
    · rw [lead, hgap, List.any_cons, hnone]
      exact ⟨rfl, List.nil_prefix⟩
  | @run w t ts hw hafter hfit hrest ih =>
    intro htorn
    rw [Token.torn_gaps_append] at htorn
    obtain ⟨hnone, hlead⟩ := ih htorn
    have hedge : touchesWord (ts.flatMap (Token.filled [','])).head? = false := hrest.edge_filled rfl hafter
    have hbegins := fillerPhrase_at_run hw hafter
    rw [hfit, Option.isSome_none] at hbegins
    have hfront : (owners.contains (w.map foldLetter) && namesList (lead (ts.flatMap (Token.filled [','])))) = false := by
      cases hnames : namesList (lead (ts.flatMap (Token.filled [',']))) with
      | false => exact Bool.and_false _
      | true =>
        rw [namesList_mono hlead hnames] at hbegins
        exact hbegins.symm
    rw [Token.flatMap_filled_gaps, Text.strands_run_eq hw hedge, Text.lead_run hw hedge, Text.lead_run hw hafter,
      List.any_cons, mentions, hfront, Bool.false_or, ← List.any_cons, ← Text.strands_eq]
    exact ⟨hnone, List.cons_prefix_cons.2 ⟨rfl, hlead⟩⟩
  | @hit c cs s t ts _ hs _ _ ih =>
    intro htorn
    obtain ⟨hnext, hlater⟩ := Bool.or_eq_false_iff.1 htorn
    rw [Token.torn_gaps_append] at hlater
    have hbreak : Text.isBreak ',' = true := by decide
    cases s with
    | nil =>
      rw [List.flatMap_cons, Token.filled, Token.flatMap_filled_gaps, List.nil_append, List.singleton_append, lead,
        Text.strands_break hbreak, List.any_cons, (ih hlater).1]
      exact ⟨rfl, List.nil_prefix⟩
    | cons d s =>
      have hd : isWordChar d = true := hs d List.mem_cons_self
      exact absurd hd (ne_true_of_eq_false hnext)

end Vocabulary

namespace Title

open Vocabulary (fillerPhrase possessive possessives)

/-- **No possessive is left.** -/
theorem possessive_withoutFiller {f : Text} (hf : ∀ c ∈ f, isQuote c = false) :
    possessive.occursIn (withoutFiller f) = false := by
  rw [Bool.eq_false_iff]
  intro hoccurs
  obtain ⟨w, hw, howner⟩ := (properWords_possessives.occursIn_iff _).1 hoccurs
  rw [wordRuns_withoutFiller hf] at hw
  have hkept := (List.mem_filter.1 hw).2
  rw [List.contains_iff_mem.2 howner] at hkept
  cases hkept

/-- **No mention is left** where commas keep apart what stood around those that were dropped. -/
theorem fillerPhrase_commas {f : Text} (hf : ∀ c ∈ f, isQuote c = false)
    (htorn : Token.torn (fillerPhrase.tokens f) = false) :
    fillerPhrase.occursIn (normalize (possessive.replaceAll [' '] (fillerPhrase.replaceAll [','] f))) = false := by
  have hphrase := free_replaceAll (p := fillerPhrase) (b := ',') (by decide) hf
  have howner := free_replaceAll (p := possessive) (b := ' ') (by decide) hphrase
  have hwalk := Pattern.walk_tokens Vocabulary.fillerPhrase_takesWords f
  have hcommas := List.any_eq_false.1 (Vocabulary.walk_commas hwalk htorn).1
  have hstrands : strands (possessive.replaceAll [' '] (fillerPhrase.replaceAll [','] f)) =
      (strands (fillerPhrase.replaceAll [','] f)).map Vocabulary.unowned := properWords_possessives.strands_replaceAll _
  rw [Vocabulary.occursIn_fillerPhrase, strands_normalize howner, hstrands, List.any_map, List.any_eq_false]
  exact fun g hg hmentions => hcommas g hg (Vocabulary.mentions_of_unowned hmentions)

/-- A word character weighs something. -/
theorem weighs_of_word {c : Char} (h : isWordChar c = true) : weighs c = true := by
  have hquote : isQuote c = false := by
    cases hq : isQuote c with
    | false => rfl
    | true => rw [Pattern.isWordChar_quote hq] at h; cases h
  have hcomma : c ≠ ',' := by
    rintro rfl
    exact absurd h (by decide)
  rw [weighs, Text.isBlank_of_word h, hquote, bne_iff_ne.2 hcomma]
  rfl

/-- **To drop filler again changes a title** exactly if the title mentions the list. -/
theorem withoutFiller_again_iff {f : Text} (hf : ∀ c ∈ f, isQuote c = false) :
    withoutFiller (withoutFiller f) = withoutFiller f ↔ fillerPhrase.occursIn (withoutFiller f) = false := by
  constructor
  · intro hsame
    rw [Bool.eq_false_iff]
    intro hoccurs
    obtain ⟨c, cs, hhit⟩ := Pattern.occursIn_iff.1 hoccurs
    obtain ⟨u, v, -, hfit⟩ := Pattern.place_of_hit_mem Vocabulary.fillerPhrase_within hhit
    rw [List.map_id] at hfit
    have hweighs := weighs_of_word (Vocabulary.fillerPhrase_takesWords.starts hfit).2.2
    -- the second pass drops what weighs something
    have hlighter := fillerPhrase.weight_replaceAll_lt (r := [' ']) (by decide) _ hhit hweighs
    have hrest := possessive.weight_replaceAll (r := [' ']) (by decide)
      (fillerPhrase.replaceAll [' '] (withoutFiller f))
    have hweight := congrArg Text.weight hsame
    rw [withoutFiller, weight_normalize] at hweight
    omega
  · intro hsilent
    rw [withoutFiller_of_silent (Pattern.silent_of_occursIn hsilent)
      (Pattern.silent_of_occursIn (possessive_withoutFiller hf)), withoutFiller, normalize_normalize]

end Title

namespace Clause

theorem infix_after {p : Pattern} {clause : Text} {v : Found} (h : p.find none (Quote.letters clause) = some v) :
    plain v.after <:+: clause := by
  have hitems := congrArg plain (Pattern.items_find h)
  rw [plain_append, plain, plain, plain, Quote.char_letters] at hitems
  exact ⟨_, [], by rw [List.append_nil]; exact hitems⟩

/-- **The titles of a clause** are quoted in it or read from a part of it. -/
theorem exists_window {clause : Text} {a : Action} (h : a ∈ actions clause) : a.title ∈ Title.quotedIn clause ∨
    ∃ window, window <:+: clause ∧ (a.title ∈ verbTitles window ∨ a.title ∈ statusTitles window) := by
  unfold actions at h
  cases hkind : kind clause with
  | nothing => simp [hkind] at h
  | quotedTitles =>
    simp only [hkind] at h
    obtain ⟨title, htitle, rfl⟩ := List.mem_map.1 h
    exact .inl htitle
  | add =>
    rw [hkind] at h
    obtain ⟨v, window, title, hv, hwithin, htitle, rfl⟩ := exists_window_of_verb h
    exact .inr ⟨window, hwithin.trans (infix_after hv), .inl htitle⟩
  | remove =>
    rw [hkind] at h
    obtain ⟨v, window, title, hv, hwithin, htitle, rfl⟩ := exists_window_of_verb h
    exact .inr ⟨window, hwithin.trans (infix_after hv), .inl htitle⟩
  | statusChange =>
    simp only [hkind] at h
    cases hw : statusWindow? clause with
    | none => simp [hw] at h
    | some found =>
      obtain ⟨window, word⟩ := found
      simp only [hw, Option.map_some, Option.getD_some] at h
      obtain ⟨title, htitle, rfl⟩ := List.mem_map.1 h
      rw [statusWindow?_eq] at hw
      obtain ⟨v, hv, hafter⟩ := Option.bind_eq_some_iff.1 hw
      exact .inr ⟨window, (infix_statusAfter hafter).trans (infix_after hv), .inr htitle⟩

theorem exists_fragment_of_mem_plainIn {t title : Text} (h : title ∈ Title.plainIn t) :
    ∃ fragment ∈ Text.pieces Title.isSeparator (Vocabulary.conjunction.replaceAll [','] t),
      title = Title.withoutFiller fragment := by
  obtain ⟨fragment, hfragment, rfl⟩ := List.mem_map.1 (List.mem_filter.1 h).1
  exact ⟨fragment, hfragment, rfl⟩

/-- The titles that are read from a text without quotes are those of the fragments of a part of it. -/
theorem exists_fragment {clause : Text} (hclause : ∀ c ∈ clause, isQuote c = false) {a : Action} (h : a ∈ actions clause) :
    ∃ window, window <:+: clause ∧
      ∃ fragment ∈ Text.pieces Title.isSeparator (Vocabulary.conjunction.replaceAll [','] window),
        a.title = Title.withoutFiller fragment := by
  rcases exists_window h with hquoted | ⟨window, hwithin, htitle⟩
  · rw [Title.quotedIn_of_free hclause] at hquoted
    cases hquoted
  · have hwindow : ∀ c ∈ window, isQuote c = false := fun c hc => hclause c (hwithin.subset hc)
    refine ⟨window, hwithin, exists_fragment_of_mem_plainIn ?_⟩
    rcases htitle with htitle | htitle
    · have hread := (sublist_distinctBy Text.lowercase _).subset htitle
      rwa [Title.quotedIn_of_free hwindow, List.nil_append, Quote.withoutQuoted_of_free hwindow] at hread
    · have hread := (sublist_distinctBy Text.lowercase _).subset htitle
      rwa [Title.quotedIn_of_free hwindow] at hread

end Clause

namespace Title

open Vocabulary (conjunction fillerPhrase possessive)

/-- **What is left when filler is dropped.**  No possessive is left.  Unless a mention tears a word, a mention of the list is
left only across a place where one was dropped: with commas in these places there is none.  To drop filler once more
changes nothing exactly if no mention is left.  And each title that is read from a text without quotes is what is left of a
fragment of it, so it has no possessive. -/
theorem withoutFiller_leftovers {f : Text} (hf : ∀ c ∈ f, isQuote c = false) :
    possessive.occursIn (withoutFiller f) = false ∧
    (Token.torn (fillerPhrase.tokens f) = false →
      fillerPhrase.occursIn (normalize (possessive.replaceAll [' '] (fillerPhrase.replaceAll [','] f))) = false) ∧
    (withoutFiller (withoutFiller f) = withoutFiller f ↔ fillerPhrase.occursIn (withoutFiller f) = false) ∧
    ∀ a ∈ Clause.actions f, possessive.occursIn a.title = false ∧ ∃ window, window <:+: f ∧
      ∃ fragment ∈ Text.pieces isSeparator (conjunction.replaceAll [','] window), a.title = withoutFiller fragment := by
  refine ⟨possessive_withoutFiller hf, fillerPhrase_commas hf, withoutFiller_again_iff hf, fun a ha => ?_⟩
  obtain ⟨window, hwithin, fragment, hfragment, htitle⟩ := Clause.exists_fragment hf ha
  have hwindow : ∀ c ∈ window, isQuote c = false := fun c hc => hf c (hwithin.subset hc)
  have hfree : ∀ c ∈ fragment, isQuote c = false :=
    fun c hc => free_replaceAll (by decide) hwindow c (Text.mem_of_mem_pieces hfragment hc)
  refine ⟨?_, window, hwithin, fragment, hfragment, htitle⟩
  rw [htitle]
  exact possessive_withoutFiller hfree

/-- *My list* is dropped and *the list* is left, which a comma would have kept apart. -/
theorem withoutFiller_leftovers_dune :
    let f := "add my Dune, the my list list".toList
    (∀ c ∈ f, isQuote c = false) ∧ Token.torn (fillerPhrase.tokens f) = false ∧
      Clause.actions f = [.add "Dune".toList, .add "the list".toList] ∧
      withoutFiller f = "add Dune, the list".toList ∧ possessive.occursIn (withoutFiller f) = false ∧
      normalize (possessive.replaceAll [' '] (fillerPhrase.replaceAll [','] f)) = "add Dune, the , list".toList ∧
      fillerPhrase.occursIn (normalize (possessive.replaceAll [' '] (fillerPhrase.replaceAll [','] f))) = false ∧
      fillerPhrase.occursIn (withoutFiller f) = true ∧ withoutFiller (withoutFiller f) ≠ withoutFiller f ∧
      possessive.occursIn "Dune".toList = false ∧ ∃ window, window <:+: f ∧
        ∃ fragment ∈ Text.pieces isSeparator (conjunction.replaceAll [','] window), "Dune".toList = withoutFiller fragment := by
  intro f
  have hf : ∀ c ∈ f, isQuote c = false := Quote.free_of_any (by decide)
  have htorn : Token.torn (fillerPhrase.tokens f) = false := by decide +kernel
  have hactions : Clause.actions f = [.add "Dune".toList, .add "the list".toList] := by decide +kernel
  have hleft : withoutFiller f = "add Dune, the list".toList := by decide +kernel
  have hcommas : normalize (possessive.replaceAll [' '] (fillerPhrase.replaceAll [','] f)) =
      "add Dune, the , list".toList := by decide +kernel
  have hmention : fillerPhrase.occursIn (withoutFiller f) = true := by decide +kernel
  obtain ⟨hpossessive, hnone, hagain, htitles⟩ := withoutFiller_leftovers hf
  have hdune := htitles (.add "Dune".toList) (by rw [hactions]; exact List.mem_cons_self)
  refine ⟨hf, htorn, hactions, hleft, hpossessive, hcommas, hnone htorn, hmention, fun hsame => ?_, hdune⟩
  exact absurd hmention (ne_true_of_eq_false (hagain.1 hsame))

/-- A mention is dropped, and what stood around it meets in another one: filler is left, and a second pass drops it. -/
theorem the_list_left : (∀ c ∈ "the my list list".toList, isQuote c = false) ∧
    withoutFiller "the my list list".toList = "the list".toList ∧
    fillerPhrase.occursIn "the list".toList = true ∧ withoutFiller "the list".toList = [] ∧
    Clause.actions "add the my list list".toList = [.add "the list".toList] :=
  ⟨Quote.free_of_any (by decide), by decide +kernel⟩

end Title
end WatchList
