import WatchList.Proofs.Blanks
import WatchList.Proofs.Titles
import WatchList.Proofs.Windows
/-!
# What is quoted steers nothing

Another text between the two quotes of a quotation, not blank like the one before, changes neither how the instruction
is cut into clauses nor what kind of clause each is.  The clause that holds the quotation reads the same titles but for
the quoted one, and writes them with the same constructor and the same status (`quoted_text_steers_nothing`).
-/
namespace WatchList

open Quote (Closed Part letters)
open Vocabulary

/-! ## What is compared -/

/-- How the clauses of a kind write a title into an action. -/
inductive ClauseKind.Writes : ClauseKind → (Text → Action) → Prop where
  | statusChange (s : Status) : Writes .statusChange fun t => .setStatus t s.code
  | add : Writes .add .add
  | remove : Writes .remove .remove
  | quotedTitles : Writes .quotedTitles .add

/-- The titles that a clause of a kind keeps of those it reads. -/
def ClauseKind.kept : ClauseKind → List Text → List Text
  | .quotedTitles, titles => titles
  | _, titles => Title.distinct titles

/-- Actions of two clauses of one kind that write the same titles alike, but for one title at most, which is `n` in the
one clause and `n'` in the other. -/
def ClauseKind.AgreeBut (k : ClauseKind) (n n' : Text) (as as' : List Action) : Prop :=
  as = as' ∨ ∃ write before after, k.Writes write ∧
    as = (k.kept (before ++ n :: after)).map write ∧ as' = (k.kept (before ++ n' :: after)).map write

def Clause.kindOf (ls ms : List Letter) : ClauseKind :=
  if (statusVerb.opensIn ls || statusVerb.opensIn ms) && (statusAlias.opensIn ls || statusAlias.opensIn ms) then
    .statusChange
  else if addVerb.opensIn ls || addVerb.opensIn ms then .add
  else if removeVerb.opensIn ls || removeVerb.opensIn ms then .remove
  else .quotedTitles

namespace Clause

variable {x : Text} (hx : Closed x) {q q' : Char} {inner : Text} (hQ : (Part.quoted q inner q').Sound)
  (hne : Title.normalize inner ≠ []) (y : Text)
include hx hQ hne

/-! ## One clause -/

theorem kind_between : kind ((Part.quoted q inner q').between x y) = kindOf (letters x) (letters y) := by
  have hquoted : (Title.quotedIn ((Part.quoted q inner q').between x y)).isEmpty = false := by
    rw [Title.quotedIn_between hx hQ hne]
    simp
  simp only [kind]
  rw [hquoted, Quote.letters_between hx hQ, opensIn_quotation statusVerb_stops hQ,
    opensIn_quotation statusAlias_stops hQ, opensIn_quotation addVerb_stops hQ, opensIn_quotation removeVerb_stops hQ]
  rfl

theorem statusTitles_between : statusTitles ((Part.quoted q inner q').between x y) =
    Title.distinct (Title.quotedIn x ++ Title.normalize inner :: Title.quotedIn y) := by
  simp only [statusTitles]
  rw [Title.quotedIn_between hx hQ hne, if_neg (by simp)]

theorem verbTitles_between : verbTitles ((Part.quoted q inner q').between x y) =
    Title.distinct (Title.quotedIn x ++ Title.normalize inner ::
      (Title.quotedIn y ++ Title.plainIn (Quote.withoutQuoted x ++ ',' :: Quote.withoutQuoted y))) := by
  rw [verbTitles, Title.quotedIn_between hx hQ hne, Quote.withoutQuoted_between hx hQ, List.append_assoc]
  rfl

omit hx hQ hne

def verbActions (verb stop : Pattern) (write : Text → Action) (clause : Text) : List Action :=
  ((verbWindow? verb stop clause).map fun window => (verbTitles window).map write).getD []

section
variable (hx : Closed x) (y : Text) (q q' : Char)
include hx

theorem verbActions_between {verb stop : Pattern} (hv : verb.StopsAtQuotes) (hs : stop.StopsAtQuotes)
    (write : Text → Action) :
    (∃ as, ∀ inner, (Part.quoted q inner q').Sound → Title.normalize inner ≠ [] →
      verbActions verb stop write ((Part.quoted q inner q').between x y) = as) ∨
    (∃ before after, ∀ inner, (Part.quoted q inner q').Sound → Title.normalize inner ≠ [] →
      verbActions verb stop write ((Part.quoted q inner q').between x y) =
        (Title.distinct (before ++ Title.normalize inner :: after)).map write) := by
  rcases verbWindow?_between hv hs hx y q q' with ⟨w, hw⟩ | ⟨x', y', hx', hw⟩
  · exact .inl ⟨_, fun inner hQ _ => by rw [verbActions, hw inner hQ]⟩
  · refine .inr ⟨Title.quotedIn x', Title.quotedIn y' ++
      Title.plainIn (Quote.withoutQuoted x' ++ ',' :: Quote.withoutQuoted y'), fun inner hQ hne => ?_⟩
    rw [verbActions, hw inner hQ, Option.map_some, Option.getD_some, verbTitles_between hx' hQ hne]

/-- **The actions of a clause with a quoted title** do not depend on the title, or name it among others. -/
theorem actions_between :
    (∃ as, ∀ inner, (Part.quoted q inner q').Sound → Title.normalize inner ≠ [] →
      actions ((Part.quoted q inner q').between x y) = as) ∨
    (∃ k write before after, k.Writes write ∧ ∀ inner, (Part.quoted q inner q').Sound → Title.normalize inner ≠ [] →
      kind ((Part.quoted q inner q').between x y) = k ∧
      actions ((Part.quoted q inner q').between x y) =
        (k.kept (before ++ Title.normalize inner :: after)).map write) := by
  obtain ⟨k, hk⟩ : ∃ k, ∀ inner, (Part.quoted q inner q').Sound → Title.normalize inner ≠ [] →
      kind ((Part.quoted q inner q').between x y) = k := ⟨_, fun inner hQ hne => kind_between hx hQ hne y⟩
  cases k with
  | statusChange =>
    rcases statusWindow?_between hx y q q' with ⟨r, hr⟩ | ⟨x', y', word, hx', hr⟩
    · exact .inl ⟨_, fun inner hQ hne => by rw [actions, hk inner hQ hne, hr inner hQ]⟩
    · refine .inr ⟨_, _, Title.quotedIn x', Title.quotedIn y', .statusChange (Status.ofWord word),
        fun inner hQ hne => ?_⟩
      refine ⟨hk inner hQ hne, ?_⟩
      rw [actions, hk inner hQ hne, hr inner hQ]
      simp only [Option.map_some, Option.getD_some]
      rw [statusTitles_between hx' hQ hne]
      rfl
  | add =>
    rcases verbActions_between hx y q q' addVerb_stops addStop_stops .add with ⟨as, has⟩ | ⟨before, after, has⟩
    · exact .inl ⟨as, fun inner hQ hne => by rw [actions, hk inner hQ hne]; exact has inner hQ hne⟩
    · refine .inr ⟨_, _, before, after, .add, fun inner hQ hne => ⟨hk inner hQ hne, ?_⟩⟩
      rw [actions, hk inner hQ hne]
      exact has inner hQ hne
  | remove =>
    rcases verbActions_between hx y q q' removeVerb_stops removeStop_stops .remove with ⟨as, has⟩ | ⟨before, after, has⟩
    · exact .inl ⟨as, fun inner hQ hne => by rw [actions, hk inner hQ hne]; exact has inner hQ hne⟩
    · refine .inr ⟨_, _, before, after, .remove, fun inner hQ hne => ⟨hk inner hQ hne, ?_⟩⟩
      rw [actions, hk inner hQ hne]
      exact has inner hQ hne
  | quotedTitles =>
    refine .inr ⟨_, _, Title.quotedIn x, Title.quotedIn y, .quotedTitles, fun inner hQ hne => ⟨hk inner hQ hne, ?_⟩⟩
    rw [actions, hk inner hQ hne]
    simp only
    rw [Title.quotedIn_between hx hQ hne]
    rfl
  | nothing => exact .inl ⟨[], fun inner hQ hne => by rw [actions, hk inner hQ hne]⟩

theorem agreeBut_between {inner inner' : Text} (hQ : (Part.quoted q inner q').Sound)
    (hQ' : (Part.quoted q inner' q').Sound) (hne : Title.normalize inner ≠ []) (hne' : Title.normalize inner' ≠ []) :
    (kind ((Part.quoted q inner q').between x y)).AgreeBut (Title.normalize inner) (Title.normalize inner')
      (actions ((Part.quoted q inner q').between x y)) (actions ((Part.quoted q inner' q').between x y)) := by
  rcases actions_between hx y q q' with ⟨as, has⟩ | ⟨k, write, before, after, hwrites, has⟩
  · exact .inl ((has inner hQ hne).trans (has inner' hQ' hne').symm)
  · obtain ⟨hk, heq⟩ := has inner hQ hne
    rw [hk]
    exact .inr ⟨write, before, after, hwrites, heq, (has inner' hQ' hne').2⟩

/-! ## The clauses of an instruction -/

/-- A quotation lies whole in one clause, between the same two texts whatever it holds, and the other clauses do not
depend on it. -/
theorem split_between :
    ∃ cs ds x' y', Closed x' ∧ ∀ inner, (Part.quoted q inner q').Sound →
      split ((Part.quoted q inner q').between x y) = cs ++ (Part.quoted q inner q').between x' y' :: ds := by
  obtain ⟨us, u, hu⟩ := Pattern.cut_concat delimiter x
  obtain ⟨w, ws, hw⟩ := Pattern.cut_cons delimiter y
  have hclosed : Closed u := Pattern.closed_cut delimiter_stops hx u (by rw [hu]; simp)
  refine ⟨(us.map Text.trim).filter fun c => !c.isEmpty, (ws.map Text.trim).filter fun c => !c.isEmpty,
    Text.trimLeft u, Text.trimRight w, Text.closed_trimLeft hclosed, fun inner hQ => ?_⟩
  have hfull : ((Part.quoted q inner q').between (Text.trimLeft u) (Text.trimRight w)).isEmpty = false := by
    simp [Part.between, Part.text]
  rw [split, Pattern.cut_between delimiter_stops hQ hx hu hw, List.map_append, List.map_cons, Text.trim_between hQ,
    List.filter_append, List.filter_cons_of_pos (by rw [hfull]; rfl)]

end

end Clause

/-- **What is quoted steers nothing.**  In any text, put another text without quotes between the two quotes of a closed
quotation, where both texts name a title.  Then there are as many clauses as before and each is of the kind it was; all
clauses but the one with the quotation are the same texts; and that clause asks for the same actions, but for the title
that is quoted and for what the deduplication of its titles makes of it. -/
theorem Clause.quoted_text_steers_nothing {t : Text} {ps ps' : List Part} {q q' : Char} {inner inner' : Text}
    (h : Quote.parts t = ps ++ .quoted q inner q' :: ps') (hfree : ∀ c ∈ inner', isQuote c = false)
    (hne : Title.normalize inner ≠ []) (hne' : Title.normalize inner' ≠ []) :
    let t' := (ps ++ .quoted q inner' q' :: ps').flatMap Part.text
    (split t').length = (split t).length ∧ (split t').map kind = (split t).map kind ∧
      ∃ cs ds x y, Closed x ∧ split t = cs ++ (Part.quoted q inner q').between x y :: ds ∧
        split t' = cs ++ (Part.quoted q inner' q').between x y :: ds ∧
        (kind ((Part.quoted q inner q').between x y)).AgreeBut (Title.normalize inner) (Title.normalize inner')
          (actions ((Part.quoted q inner q').between x y)) (actions ((Part.quoted q inner' q').between x y)) := by
  intro t'
  obtain ⟨hps, hQ⟩ := Quote.sound_of_parts_eq h
  have hQ' : (Part.quoted q inner' q').Sound := ⟨hQ.1, hQ.2.1, hfree⟩
  have hx := Quote.closed_flatMap hps
  have ht : t = (Part.quoted q inner q').between (ps.flatMap Part.text) (ps'.flatMap Part.text) := by
    rw [← Quote.text_parts t, h, List.flatMap_append, List.flatMap_cons, Part.between, List.append_assoc]
  have ht' : t' = (Part.quoted q inner' q').between (ps.flatMap Part.text) (ps'.flatMap Part.text) := by
    simp only [t']
    rw [List.flatMap_append, List.flatMap_cons, Part.between, List.append_assoc]
  obtain ⟨cs, ds, x, y, hx', hsplit⟩ := split_between hx (ps'.flatMap Part.text) q q'
  have hc := hsplit inner hQ
  have hc' := hsplit inner' hQ'
  rw [← ht] at hc
  rw [← ht'] at hc'
  refine ⟨?_, ?_, cs, ds, x, y, hx', hc, hc', agreeBut_between hx' y q q' hQ hQ' hne hne'⟩
  · rw [hc, hc', List.length_append, List.length_append, List.length_cons, List.length_cons]
  · rw [hc, hc', List.map_append, List.map_append, List.map_cons, List.map_cons, kind_between hx' hQ hne,
      kind_between hx' hQ' hne']

/-- A title with a semicolon, a verb, a pivot and a status in it, in the place of a plain one. -/
theorem Clause.quoted_text_steers_nothing_mark :
    Quote.parts "remove \"Heat\", Alien; \"Dune\"".toList =
        "remove ".toList.map .plain ++ .quoted '"' "Heat".toList '"' ::
          (", Alien; ".toList.map .plain ++ [.quoted '"' "Dune".toList '"']) ∧
      (∀ c ∈ "Go; mark it as seen".toList, isQuote c = false) ∧
      Title.normalize "Heat".toList ≠ [] ∧ Title.normalize "Go; mark it as seen".toList ≠ [] ∧
      (split "remove \"Go; mark it as seen\", Alien; \"Dune\"".toList).map kind =
        (split "remove \"Heat\", Alien; \"Dune\"".toList).map kind := by
  have hparts : Quote.parts "remove \"Heat\", Alien; \"Dune\"".toList = "remove ".toList.map .plain ++
      .quoted '"' "Heat".toList '"' :: (", Alien; ".toList.map .plain ++ [.quoted '"' "Dune".toList '"']) := by
    decide +kernel
  have hfree : ∀ c ∈ "Go; mark it as seen".toList, isQuote c = false :=
    Quote.free_of_any (by decide)
  have hne : Title.normalize "Heat".toList ≠ [] := by decide +kernel
  have hne' : Title.normalize "Go; mark it as seen".toList ≠ [] := by decide +kernel
  obtain ⟨-, hkinds, -⟩ := quoted_text_steers_nothing hparts hfree hne hne'
  exact ⟨hparts, hfree, hne, hne', hkinds⟩

end WatchList
