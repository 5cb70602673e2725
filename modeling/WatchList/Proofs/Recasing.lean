import WatchList.Proofs.Casing
import WatchList.Proofs.Silence
import WatchList.Proofs.Spacing
import WatchList.Proofs.Windows
/-!
# Instructions in other letters

A change of letters that keeps what each letter folds to, and the small letters of every text, is a change of case
(`Recases`).  Whatever asks about a character asks about what it folds to (`Recases.of_fold`), so nothing that reads a
text sees a change of case: patterns take the same at the same places (`Pattern.Recased`), quotations and blanks stand
where they stood, and what is read is read in the changed letters, function by function up to the plan
(`Recases.ofText_map`).

To put the ASCII letters of a text in capitals is such a change (`recases_upperAscii`).
-/
namespace WatchList

open Text (words collapsed trim joined)

/-- The change of letters keeps letters up to case, and the space and the comma as they are. -/
structure Recases (u : Char → Char) : Prop where
  fold : ∀ c, foldLetter (u c) = foldLetter c
  small : ∀ t : Text, Text.lowercase (t.map u) = t.lowercase
  space : u ' ' = ' '
  comma : u ',' = ','

theorem recases_upperAscii : Recases upperAscii where
  fold := eq_upperAscii foldLetter (by decide +kernel)
  small := Text.lowercase_asciiUpper
  space := by decide
  comma := by decide

theorem isQuote_foldLetter : ∀ c, isQuote (foldLetter c) = isQuote c :=
  eq_foldLetter isQuote (by decide +kernel) (by decide) (by decide)

theorem isSeparator_foldLetter : ∀ c, Title.isSeparator (foldLetter c) = Title.isSeparator c :=
  eq_foldLetter Title.isSeparator (by decide +kernel) (by decide) (by decide)

/-! ## Letters, tokens and quotations in other letters -/

/-- The letter in another case. -/
def Letter.recase (u : Char → Char) (l : Letter) : Letter := { l with char := u l.char }

def Found.recase (u : Char → Char) (f : Found) : Found :=
  ⟨f.before.map (Letter.recase u), f.phrase.map (Letter.recase u), f.after.map (Letter.recase u)⟩

def Quote.Part.recase (u : Char → Char) : Quote.Part → Quote.Part
  | .plain c => .plain (u c)
  | .quoted q inner q' => .quoted (u q) (inner.map u) (u q')

theorem Text.joined_map {u : Char → Char} (hu : u ' ' = ' ') (ws : List Text) :
    joined [' '] (ws.map (List.map u)) = (joined [' '] ws).map u := by
  fun_induction joined [' '] ws with
  | case1 => rfl
  | case2 w => rfl
  | case3 w ws hmore ih =>
    rw [List.map_cons, joined, ih, List.map_append, List.map_append, List.map_singleton, hu]
    simpa using hmore

theorem distinctBy_map {α β γ : Type} [BEq γ] {f : α → β} {key : β → γ} {key' : α → γ} (h : ∀ a, key (f a) = key' a)
    (as : List α) : distinctBy key (as.map f) = (distinctBy key' as).map f := by
  induction as with
  | nil => rfl
  | cons a as ih =>
    rw [List.map_cons, distinctBy, distinctBy, ih, List.filter_map, List.map_cons, h]
    congr 3
    funext b
    rw [Function.comp, h]

theorem Clause.plain_recase (u : Char → Char) (ls : List Letter) :
    plain (ls.map (Letter.recase u)) = (plain ls).map u := by
  rw [plain, plain, List.map_map, List.map_map]
  rfl

theorem Found.text_recase (u : Char → Char) (f : Found) : (f.recase u).text = f.text.map u :=
  Clause.plain_recase u f.phrase

theorem Found.map_text_recase (u : Char → Char) (f? : Option Found) :
    (f?.map (Found.recase u)).map Found.text = (f?.map Found.text).map (List.map u) := by
  rw [Option.map_map, Option.map_map]
  congr 1
  funext f
  exact Found.text_recase u f

theorem Found.lastChar_recase (u : Char → Char) (f : Found) : (f.recase u).lastChar = f.lastChar.map u := by
  rw [Found.lastChar, Found.lastChar, Found.recase, List.getLast?_map, Option.map_map, Option.map_map]
  rfl

namespace Pattern

theorem ofTokens?_recase (u : Char → Char) (ts : List (Token Letter)) :
    Found.ofTokens? (ts.map (Token.map (Letter.recase u))) = (Found.ofTokens? ts).map (Found.recase u) := by
  have hbehind : ∀ (ls : List Letter) (f? : Option Found), (f?.map (Found.recase u)).map
      (Found.behind (ls.map (Letter.recase u))) = (f?.map (Found.behind ls)).map (Found.recase u) := by
    intro ls f?
    rw [Option.map_map, Option.map_map]
    congr 1
    funext f
    simp [Found.behind, Found.recase]
  induction ts with
  | nil => rfl
  | cons tok ts ih =>
    cases tok with
    | gap l =>
      rw [List.map_cons, Token.map, Found.ofTokens?, ih, Found.ofTokens?, ← hbehind]
      rfl
    | hit l ls =>
      rw [List.map_cons, Token.map, Found.ofTokens?, ih, Found.ofTokens?, Letter.recase]
      split
      · exact hbehind (l :: ls) _
      · rw [Token.items_map]
        rfl

theorem cutTokens_recase (u : Char → Char) (ts : List (Token Letter)) :
    cutTokens (ts.map (Token.map (Letter.recase u))) = (cutTokens ts).map (List.map u) := by
  have honto : ∀ (s : Text) (ws : List Text), onto (s.map u) (ws.map (List.map u)) = (onto s ws).map (List.map u) := by
    intro s ws
    cases ws with
    | nil => rfl
    | cons w ws => rw [onto, List.map_cons, onto, List.map_cons, List.map_append]
  induction ts with
  | nil => rfl
  | cons tok ts ih =>
    cases tok with
    | gap l =>
      rw [List.map_cons, Token.map, cutTokens, ih, cutTokens, ← honto]
      rfl
    | hit l ls =>
      rw [List.map_cons, Token.map, cutTokens, ih, cutTokens, Letter.recase]
      split
      · rw [← honto]
        exact congrArg (onto · _) (Clause.plain_recase u (l :: ls))
      · rfl

/-- The pattern takes the same whatever the case of the letters. -/
def Recased (u : Char → Char) (p : Pattern) : Prop := ∀ before t, p (before.map u) (t.map u) = p before t

end Pattern

namespace Recases

variable {u : Char → Char} (hu : Recases u)
include hu

/-- **What is asked about characters up to case is not changed.** -/
theorem of_fold {α : Type} {f : Char → α} (hf : ∀ c, f (foldLetter c) = f c) (c : Char) : f (u c) = f c := by
  rw [← hf, hu.fold, hf]

theorem isWordChar (c : Char) : WatchList.isWordChar (u c) = WatchList.isWordChar c :=
  hu.of_fold Pattern.isWordChar_foldLetter c

theorem isBlank (c : Char) : WatchList.isBlank (u c) = WatchList.isBlank c := hu.of_fold isBlank_foldLetter c

theorem isQuote (c : Char) : WatchList.isQuote (u c) = WatchList.isQuote c := hu.of_fold isQuote_foldLetter c

/-! ## Patterns -/

theorem touchesWord (next : Option Char) : WatchList.touchesWord (next.map u) = WatchList.touchesWord next := by
  cases next with
  | none => rfl
  | some c => exact hu.isWordChar c

theorem blankRun (t : Text) : Pattern.blankRun (t.map u) = Pattern.blankRun t := by
  rw [Pattern.blankRun, Pattern.blankRun, List.takeWhile_map, List.length_map]
  congr 2
  funext c
  exact hu.isBlank c

theorem reach (w t : Text) : Pattern.reach w (t.map u) = Pattern.reach w t := by
  induction w generalizing t with
  | nil => rfl
  | cons a w ih =>
    unfold Pattern.reach
    split
    · rw [hu.blankRun]
      cases Pattern.blankRun t with
      | zero => rfl
      | succ n => simp only [← List.map_drop, ih]
    · cases t with
      | nil => rfl
      | cons c t => simp only [List.map_cons, hu.fold, ih]

theorem wholeReach (w t : Text) : Pattern.wholeReach (t.map u) w = Pattern.wholeReach t w := by
  rw [Pattern.wholeReach, Pattern.wholeReach, hu.reach]
  congr 1
  funext n
  rw [← List.map_drop, List.head?_map, hu.touchesWord]

theorem word (table : List Text) : (Pattern.word table).Recased u := by
  intro before t
  rw [Pattern.word, Pattern.word, hu.touchesWord]
  congr 2
  funext w
  exact hu.wholeReach w t

theorem one {pick : Char → Bool} (h : ∀ c, pick (foldLetter c) = pick c) : (Pattern.one pick).Recased u := by
  intro before t
  cases t with
  | nil => rfl
  | cons c t => simp only [Pattern.one, List.map_cons, hu.of_fold h]

theorem phrase (w : Text) : (Pattern.phrase w).Recased u := fun _ t => hu.reach w t

theorem blanks : Pattern.blanks.Recased u := by
  intro before t
  rw [Pattern.blanks, Pattern.blanks, hu.blankRun]

omit hu in
theorem andThen {p q : Pattern} (hp : p.Recased u) (hq : q.Recased u) : (p.andThen q).Recased u := by
  intro before t
  rw [Pattern.andThen, Pattern.andThen, hp before t]
  congr 1
  funext n
  have hlast : ((t.map u).take n).getLast?.or (before.map u) = ((t.take n).getLast?.or before).map u := by
    rw [← List.map_take, List.getLast?_map]
    cases (t.take n).getLast? <;> rfl
  rw [hlast, ← List.map_drop, hq]

omit hu in
theorem orElse {p q : Pattern} (hp : p.Recased u) (hq : q.Recased u) : (p.orElse q).Recased u := by
  intro before t
  rw [Pattern.orElse, Pattern.orElse, hp before t, hq before t]

theorem delimiter : Vocabulary.delimiter.Recased u :=
  orElse (hu.word _) (hu.one (eq_foldLetter (fun c => c == '.' || c == ';') (by decide +kernel) (by decide) (by decide)))

theorem fillerPhrase : Vocabulary.fillerPhrase.Recased u :=
  andThen (andThen (hu.word _) hu.blanks)
    (andThen (hu.word _) (orElse (andThen hu.blanks (hu.phrase _)) fun _ _ => rfl))

end Recases

namespace Pattern.Recased

variable {u : Char → Char} {p : Pattern} (hp : p.Recased u)
include hp

/-! ## Scans -/

theorem scan {α : Type} (char : α → Char) (before : Option Char) (as : List α) :
    p.scan (u ∘ char) (before.map u) as = p.scan char before as := by
  have htaken : ∀ (before : Option Char) (as : List α), p.taken (u ∘ char) (before.map u) as = p.taken char before as := by
    intro before as
    rw [taken, taken, ← List.map_map, hp]
  fun_induction p.scan char before as with
  | case1 => rw [scan_nil]
  | case2 before a as n hn ih => rw [scan_cons_hit ((htaken _ _).trans hn), ← ih]; rfl
  | case3 before a as hn ih => rw [scan_cons_gap ((htaken _ _).trans hn), ← ih]; rfl

theorem tokens (t : Text) : p.tokens (t.map u) = (p.tokens t).map (Token.map u) := by
  rw [Pattern.tokens, scan_map]
  exact congrArg _ (hp.scan id none t)

theorem scan_letters (before : Option Char) (ls : List Letter) :
    p.scan Letter.char (before.map u) (ls.map (Letter.recase u)) =
      (p.scan Letter.char before ls).map (Token.map (Letter.recase u)) := by
  rw [scan_map]
  exact congrArg _ (hp.scan Letter.char before ls)

theorem replaceAll {r : Text} (hr : r.map u = r) (t : Text) : p.replaceAll r (t.map u) = (p.replaceAll r t).map u := by
  rw [replaceAll_eq, replaceAll_eq, hp.tokens, List.flatMap_map, List.map_flatMap]
  congr 1
  funext tok
  cases tok with
  | gap c => rfl
  | hit c cs => exact hr.symm

theorem find (before : Option Char) (ls : List Letter) :
    p.find (before.map u) (ls.map (Letter.recase u)) = (p.find before ls).map (Found.recase u) := by
  rw [Pattern.find, hp.scan_letters, ofTokens?_recase, Pattern.find]

theorem findAfter (f : Found) : p.findAfter (f.recase u) = (p.findAfter f).map (Found.recase u) := by
  rw [Pattern.findAfter, Found.lastChar_recase]
  exact hp.find f.lastChar f.after

theorem opensIn (ls : List Letter) : p.opensIn (ls.map (Letter.recase u)) = p.opensIn ls := by
  have hfind := hp.find none ls
  rw [Option.map_none] at hfind
  rw [Pattern.opensIn, hfind, Option.isSome_map, Pattern.opensIn]

end Pattern.Recased

namespace Recases

variable {u : Char → Char} (hu : Recases u)
include hu

/-! ## Quotations and titles -/

theorem parts (t : Text) : Quote.parts (t.map u) = (Quote.parts t).map (Quote.Part.recase u) := by
  have hfrom : ∀ (t : Text) (pending : Option (Char × Text)),
      Quote.partsFrom (pending.map fun o => (u o.1, o.2.map u)) (t.map u) =
        (Quote.partsFrom pending t).map (Quote.Part.recase u) := by
    intro t
    induction t with
    | nil =>
      intro pending
      cases pending with
      | none => rfl
      | some o => simp [Quote.partsFrom, Quote.Part.recase]
    | cons c t ih =>
      intro pending
      have hnone := ih none
      have hopen := ih (some (c, []))
      rw [Option.map_none] at hnone
      cases pending with
      | none =>
        simp only [List.map_cons, Option.map_none, Quote.partsFrom, hu.isQuote]
        split
        · exact hopen
        · rw [hnone]
          rfl
      | some o =>
        have hlonger := ih (some (o.1, c :: o.2))
        simp only [List.map_cons, Option.map_some, Quote.partsFrom, hu.isQuote]
        split
        · rw [hnone, ← List.map_reverse]
          rfl
        · exact hlonger
  exact hfrom t none

theorem letters (t : Text) : Quote.letters (t.map u) = (Quote.letters t).map (Letter.recase u) := by
  rw [Quote.letters, hu.parts, Quote.letters, List.flatMap_map, List.map_flatMap]
  congr 1
  funext part
  cases part with
  | plain c => rfl
  | quoted q inner q' => simp [Quote.Part.recase, Quote.Part.letters, Letter.recase]

theorem inners (t : Text) : Quote.inners (t.map u) = (Quote.inners t).map (List.map u) := by
  rw [Quote.inners, hu.parts, Quote.inners, List.filterMap_map, List.map_filterMap]
  congr 1
  funext part
  cases part <;> rfl

theorem withoutQuoted (t : Text) : Quote.withoutQuoted (t.map u) = (Quote.withoutQuoted t).map u := by
  rw [Quote.withoutQuoted, hu.parts, Quote.withoutQuoted, List.flatMap_map, List.map_flatMap]
  congr 1
  funext part
  cases part with
  | plain c => rfl
  | quoted q inner q' => exact congrArg (fun c => [c]) hu.comma.symm

theorem normalize (t : Text) : Title.normalize (t.map u) = (Title.normalize t).map u := by
  have hplain : (fun c => !WatchList.isQuote c) ∘ u = fun c => !WatchList.isQuote c :=
    funext fun c => congrArg (! ·) (hu.isQuote c)
  rw [Title.normalize, List.filter_map, hplain, collapsed, Text.words_map hu.isBlank, Text.joined_map hu.space]
  rfl

omit hu in
theorem filter_named (ts : List Text) :
    (ts.map (List.map u)).filter (fun t => !t.isEmpty) = (ts.filter fun t => !t.isEmpty).map (List.map u) := by
  rw [List.filter_map]
  congr 2
  funext t
  cases t <;> rfl

theorem quotedIn (t : Text) : Title.quotedIn (t.map u) = (Title.quotedIn t).map (List.map u) := by
  rw [Title.quotedIn, hu.inners, Title.quotedIn, Title.ofAll, Title.ofAll, ← filter_named, List.map_map, List.map_map]
  congr 2
  funext inner
  exact hu.normalize inner

theorem withoutFiller (t : Text) : Title.withoutFiller (t.map u) = (Title.withoutFiller t).map u := by
  have hspace : ([' '] : Text).map u = [' '] := congrArg (fun c => [c]) hu.space
  have howner : Vocabulary.possessive.Recased u := hu.word _
  rw [Title.withoutFiller, hu.fillerPhrase.replaceAll hspace, howner.replaceAll hspace, hu.normalize]
  rfl

theorem plainIn (t : Text) : Title.plainIn (t.map u) = (Title.plainIn t).map (List.map u) := by
  have hcomma : ([','] : Text).map u = [','] := congrArg (fun c => [c]) hu.comma
  have hjoin : Vocabulary.conjunction.Recased u := hu.word _
  rw [Title.plainIn, hjoin.replaceAll hcomma, Text.pieces_map (hu.of_fold isSeparator_foldLetter), Title.plainIn,
    ← filter_named, List.map_map, List.map_map]
  congr 2
  funext fragment
  exact hu.withoutFiller fragment

theorem distinct (ts : List Text) : Title.distinct (ts.map (List.map u)) = (Title.distinct ts).map (List.map u) :=
  distinctBy_map hu.small ts

/-! ## Clauses -/

theorem verbWindow? {verb stop : Pattern} (hverb : verb.Recased u) (hstop : stop.Recased u) (t : Text) :
    Clause.verbWindow? verb stop (t.map u) = (Clause.verbWindow? verb stop t).map (List.map u) := by
  have hfind := hverb.find none (Quote.letters t)
  rw [Option.map_none] at hfind
  rw [Clause.verbWindow?_eq, hu.letters, hfind, Clause.verbWindow?_eq, Option.map_map, Option.map_map]
  congr 1
  funext v
  rw [Function.comp, Function.comp, Clause.windowAfter, hstop.findAfter, Clause.windowAfter]
  cases stop.findAfter v with
  | none => exact Clause.plain_recase u v.after
  | some s => exact Clause.plain_recase u s.before

theorem statusAfter (first : Option Text) (v : Found) : Clause.statusAfter (first.map (List.map u)) (v.recase u) =
    (Clause.statusAfter first v).map fun found => (found.1.map u, found.2.map u) := by
  have hpivot : Vocabulary.pivot.Recased u := hu.word _
  have hstatus : Vocabulary.statusAlias.Recased u := hu.word _
  rw [Clause.statusAfter, hpivot.findAfter, Clause.statusAfter]
  cases Vocabulary.pivot.findAfter v with
  | some p =>
    simp only [Option.map_some]
    rw [hstatus.findAfter, Found.map_text_recase, ← Option.map_or, Option.map_map, Option.map_map]
    congr 1
    funext word
    exact congrArg (·, word.map u) (Clause.plain_recase u p.before)
  | none =>
    simp only [Option.map_none, hstatus.findAfter]
    cases Vocabulary.statusAlias.findAfter v with
    | some a =>
      simp only [Option.map_some, Found.text_recase]
      exact congrArg (fun window => some (window, a.text.map u)) (Clause.plain_recase u a.before)
    | none =>
      simp only [Option.map_none, Option.map_map]
      congr 1
      funext word
      exact congrArg (·, word.map u) (Clause.plain_recase u v.after)

theorem statusWindow? (t : Text) : Clause.statusWindow? (t.map u) =
    (Clause.statusWindow? t).map fun found => (found.1.map u, found.2.map u) := by
  have hverb : Vocabulary.statusVerb.Recased u := hu.word _
  have hstatus : Vocabulary.statusAlias.Recased u := hu.word _
  have hfind := hverb.find none (Quote.letters t)
  have hanywhere := hstatus.find none (Quote.letters t)
  rw [Option.map_none] at hfind hanywhere
  have hfirst : (Vocabulary.statusAlias.find none (Quote.letters (t.map u))).map Found.text =
      ((Vocabulary.statusAlias.find none (Quote.letters t)).map Found.text).map (List.map u) := by
    rw [hu.letters, hanywhere, Found.map_text_recase]
  rw [Clause.statusWindow?_eq, hfirst, hu.letters, hfind, Clause.statusWindow?_eq]
  cases Vocabulary.statusVerb.find none (Quote.letters t) with
  | none => rfl
  | some v => exact hu.statusAfter _ v

theorem kind (t : Text) : Clause.kind (t.map u) = Clause.kind t := by
  have hstatusVerb : Vocabulary.statusVerb.Recased u := hu.word _
  have hstatus : Vocabulary.statusAlias.Recased u := hu.word _
  have hadd : Vocabulary.addVerb.Recased u := hu.word _
  have hremove : Vocabulary.removeVerb.Recased u := hu.word _
  rw [Clause.kind, Clause.kind, hu.letters, hstatusVerb.opensIn, hstatus.opensIn, hadd.opensIn, hremove.opensIn,
    hu.quotedIn, List.isEmpty_map]

theorem verbTitles (t : Text) : Clause.verbTitles (t.map u) = (Clause.verbTitles t).map (List.map u) := by
  rw [Clause.verbTitles, hu.quotedIn, hu.withoutQuoted, hu.plainIn, ← List.map_append, hu.distinct]
  rfl

theorem statusTitles (t : Text) : Clause.statusTitles (t.map u) = (Clause.statusTitles t).map (List.map u) := by
  rw [Clause.statusTitles, hu.quotedIn, hu.plainIn, List.isEmpty_map, Clause.statusTitles]
  cases (Title.quotedIn t).isEmpty <;> exact hu.distinct _

/-- A status word stands for one status in any case. -/
theorem ofWord (word : Text) : Status.ofWord (word.map u) = Status.ofWord word := by
  rw [Status.ofWord, Status.ofWord?, Text.trim_map hu.isBlank, hu.small]
  rfl

end Recases

/-- The same action on a title in other letters. -/
def Action.mapTitle (f : Text → Text) : Action → Action
  | .add t => .add (f t)
  | .remove t => .remove (f t)
  | .setStatus t word => .setStatus (f t) word

namespace Recases

variable {u : Char → Char} (hu : Recases u)
include hu

theorem verbActions {verb stop : Pattern} (hverb : verb.Recased u) (hstop : stop.Recased u) {write : Text → Action}
    (hwrite : ∀ t, write (t.map u) = (write t).mapTitle (List.map u)) (t : Text) :
    Clause.verbActions verb stop write (t.map u) =
      (Clause.verbActions verb stop write t).map (Action.mapTitle (List.map u)) := by
  rw [Clause.verbActions, hu.verbWindow? hverb hstop, Clause.verbActions]
  cases Clause.verbWindow? verb stop t with
  | none => rfl
  | some window =>
    rw [Option.map_some, Option.map_some, Option.map_some, Option.getD_some, Option.getD_some, hu.verbTitles, List.map_map,
      List.map_map]
    exact List.map_congr_left fun title _ => hwrite title

theorem actions (t : Text) : Clause.actions (t.map u) = (Clause.actions t).map (Action.mapTitle (List.map u)) := by
  rw [Clause.actions, hu.kind, Clause.actions]
  cases Clause.kind t with
  | nothing => rfl
  | add => exact hu.verbActions (hu.word _) (hu.word _) (fun _ => rfl) t
  | remove => exact hu.verbActions (hu.word _) (hu.word _) (fun _ => rfl) t
  | quotedTitles =>
    simp only [hu.quotedIn, List.map_map]
    rfl
  | statusChange =>
    simp only [hu.statusWindow?]
    cases Clause.statusWindow? t with
    | none => rfl
    | some found =>
      simp only [Option.map_some, Option.getD_some, hu.statusTitles, hu.ofWord, List.map_map]
      rfl

theorem split (t : Text) : Clause.split (t.map u) = (Clause.split t).map (List.map u) := by
  have hscan := hu.delimiter.scan_letters none (Quote.letters t)
  rw [Option.map_none] at hscan
  rw [Clause.split, Pattern.cut, hu.letters, hscan, Pattern.cutTokens_recase, Clause.split, Pattern.cut, ← filter_named,
    List.map_map, List.map_map]
  congr 2
  funext clause
  exact Text.trim_map hu.isBlank clause

/-- **The plan of an instruction in other letters** is its plan, with the titles in those letters. -/
theorem ofText_map (t : Text) : Plan.ofText (t.map u) = (Plan.ofText t).map (Action.mapTitle (List.map u)) := by
  rw [Plan.ofText, hu.split, Plan.ofText, List.flatMap_map, List.map_flatMap]
  congr 1
  funext clause
  exact hu.actions clause

end Recases

/-- **Interpretation does not see the case of ASCII letters**: an instruction in capitals has the plan of the instruction,
action by action and status by status, with its titles in capitals. -/
theorem Plan.ofText_asciiUpper (instruction : Text) :
    ofText instruction.asciiUpper = (ofText instruction).map (Action.mapTitle Text.asciiUpper) :=
  recases_upperAscii.ofText_map instruction

end WatchList
