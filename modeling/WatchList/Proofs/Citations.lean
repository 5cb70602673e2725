import WatchList.Proofs.CleanTitles
import WatchList.Proofs.Joining
import WatchList.Proofs.Spacing
/-!
# Titles in quotes

A text without quotes that names a title can be **cited**: in quotes it is read as that title, whatever else it says.
A verb in front of citations asks for their titles in order (`Plan.ofText_verbLead`), and a verb in front of one
citation with a status behind it asks for that status (`Plan.ofText_statusFrame`).
-/
namespace WatchList

open Quote (Closed Part letters)

/-! ## Nothing but blanks -/

namespace Title

theorem withoutFiller_of_blank {t : Text} (h : ∀ c ∈ t, isBlank c = true) : withoutFiller t = [] := by
  refine normalize_eq_nil_iff.2 fun c hc => .inr ?_
  have hspace : ∀ d ∈ ([' '] : Text), isBlank d = true := by simp [show isBlank ' ' = true by decide]
  rcases Pattern.mem_replaceAll hc with hc | hc
  · exact hspace c hc
  · rcases Pattern.mem_replaceAll hc with hc | hc
    · exact hspace c hc
    · exact h c hc

/-- Commas and blanks name no title. -/
theorem plainIn_of_bare {t : Text} (h : ∀ c ∈ t, c = ',' ∨ isBlank c = true) : plainIn t = [] := by
  refine List.filter_eq_nil_iff.2 fun title htitle => ?_
  obtain ⟨fragment, hfragment, rfl⟩ := List.mem_map.1 htitle
  have hblank : ∀ c ∈ fragment, isBlank c = true := by
    intro c hc
    have hfree := Text.free_of_mem_pieces hfragment c hc
    have hcomma : c ≠ ',' := by
      rintro rfl
      cases hfree
    rcases Pattern.mem_replaceAll (Text.mem_of_mem_pieces hfragment hc) with hmem | hmem
    · exact absurd (List.mem_singleton.1 hmem) hcomma
    · exact (h c hmem).resolve_left hcomma
  rw [withoutFiller_of_blank hblank]
  simp

/-! ## Citations -/

/-- A text without quotes that names a title. -/
structure Citable (t : Text) : Prop where
  free : ∀ c ∈ t, isQuote c = false
  named : normalize t ≠ []

/-- The title between two quotes. -/
def cited (t : Text) : Text := '"' :: (t ++ ['"'])

theorem Citable.sound {t : Text} (h : Citable t) : (Part.quoted '"' t '"').Sound := ⟨by decide, by decide, h.free⟩

theorem Clean.citable {t : Text} (h : Clean t) : Citable t where
  free := free_of_normal h.normal
  named := by rw [h.normal]; exact h.named

/-- Further citations behind one. -/
def moreCited : List Text → Text
  | [] => []
  | t :: ts => (Part.quoted '"' t '"').between ", ".toList (moreCited ts)

theorem joined_cited : ∀ (t : Text) (ts : List Text),
    Text.joined ", ".toList ((t :: ts).map cited) = cited t ++ moreCited ts
  | t, [] => (List.append_nil _).symm
  | t, u :: us => by
    have ih := joined_cited u us
    rw [List.map_cons] at ih
    rw [List.map_cons, List.map_cons, Text.joined, ih, moreCited, Part.between, List.append_assoc, List.append_assoc]
    · rfl
    · exact List.cons_ne_nil _ _

theorem closed_comma : Closed ", ".toList := by decide

theorem quotedIn_moreCited : ∀ {ts : List Text}, (∀ t ∈ ts, Citable t) → quotedIn (moreCited ts) = ts.map normalize
  | [], _ => rfl
  | t :: ts, h => by
    obtain ⟨ht, hts⟩ := List.forall_mem_cons.1 h
    rw [moreCited, quotedIn_between closed_comma ht.sound ht.named, quotedIn_moreCited hts]
    rfl

/-- Outside the quotations there are commas and blanks only. -/
theorem bare_moreCited : ∀ {ts : List Text}, (∀ t ∈ ts, Citable t) →
    ∀ c ∈ Quote.withoutQuoted (moreCited ts), c = ',' ∨ isBlank c = true
  | [], _ => fun c hc => absurd hc List.not_mem_nil
  | t :: ts, h => by
    obtain ⟨ht, hts⟩ := List.forall_mem_cons.1 h
    have hcomma : ∀ c ∈ Quote.withoutQuoted ", ".toList, c = ',' ∨ isBlank c = true := by
      rw [show Quote.withoutQuoted ", ".toList = [',', ' '] by decide]
      simp [show isBlank ' ' = true by decide]
    rw [moreCited, Quote.withoutQuoted_between closed_comma ht.sound]
    exact List.forall_mem_append.2 ⟨hcomma, List.forall_mem_cons.2 ⟨.inl rfl, bare_moreCited hts⟩⟩

/-- Between citations there is nothing to find for a pattern that finds nothing in a comma. -/
theorem find_moreCited {p : Pattern} (hp : p.StopsAtQuotes) (hcomma : p.find none (letters ", ".toList) = none) :
    ∀ {ts : List Text}, (∀ t ∈ ts, Citable t) → p.find none (letters (moreCited ts)) = none
  | [], _ => p.find_nil none
  | t :: ts, h => by
    obtain ⟨ht, hts⟩ := List.forall_mem_cons.1 h
    rw [moreCited, Quote.letters_between closed_comma ht.sound, Pattern.find_behind_quotation hp ht.sound _ hcomma,
      find_moreCited hp hcomma hts]
    rfl

theorem cut_moreCited : ∀ {ts : List Text}, (∀ t ∈ ts, Citable t) →
    Vocabulary.delimiter.cut (moreCited ts) = [moreCited ts]
  | [], _ => Pattern.cut_nil _
  | t :: ts, h => by
    obtain ⟨ht, hts⟩ := List.forall_mem_cons.1 h
    have hcomma : Vocabulary.delimiter.cut ", ".toList = [] ++ [", ".toList] := by decide +kernel
    exact Pattern.cut_between Vocabulary.delimiter_stops ht.sound closed_comma hcomma (cut_moreCited hts)

theorem trimRight_moreCited : ∀ {ts : List Text}, (∀ t ∈ ts, Citable t) →
    Text.trimRight (moreCited ts) = moreCited ts
  | [], _ => rfl
  | t :: ts, h => by
    obtain ⟨ht, hts⟩ := List.forall_mem_cons.1 h
    rw [moreCited, Text.trimRight_between ht.sound, trimRight_moreCited hts]

end Title

namespace Clause
open Vocabulary

/-! ## A verb before citations -/

/-- A verb in front of a citation, with a space between, where nothing stops the window of the verb. -/
structure VerbLead where
  text : Text
  kind : ClauseKind
  verb : Pattern
  stop : Pattern
  write : Text → Action
  found : Found
  closed : Closed text
  verbStops : verb.StopsAtQuotes
  stopStops : stop.StopsAtQuotes
  after : plain found.after = [' ']
  scans : kindOf (letters text) (letters []) = kind ∧ verb.find none (letters text) = some found ∧
    stop.findAfter found = none ∧ stop.find none (letters ", ".toList) = none
  whole : delimiter.cut text = [] ++ [text] ∧ Text.trimLeft text = text
  reads : ∀ clause, Clause.kind clause = kind → actions clause = verbActions verb stop write clause

def addLead : VerbLead where
  text := "add ".toList
  kind := .add
  verb := addVerb
  stop := addStop
  write := .add
  found := ⟨[], letters "add".toList, letters [' ']⟩
  closed := by decide
  verbStops := addVerb_stops
  stopStops := addStop_stops
  after := rfl
  scans := by decide +kernel
  whole := by decide +kernel
  reads clause h := by
    rw [actions, h]
    rfl

def removeLead : VerbLead where
  text := "remove ".toList
  kind := .remove
  verb := removeVerb
  stop := removeStop
  write := .remove
  found := ⟨[], letters "remove".toList, letters [' ']⟩
  closed := by decide
  verbStops := removeVerb_stops
  stopStops := removeStop_stops
  after := rfl
  scans := by decide +kernel
  whole := by decide +kernel
  reads clause h := by
    rw [actions, h]
    rfl

theorem split_of_whole {t x y : Text} (ht : Title.Citable t) (hx : Closed x)
    (hleft : delimiter.cut x = [] ++ [x] ∧ Text.trimLeft x = x) (hright : delimiter.cut y = [y] ∧ Text.trimRight y = y) :
    split ((Part.quoted '"' t '"').between x y) = [(Part.quoted '"' t '"').between x y] := by
  have hcut := Pattern.cut_between delimiter_stops ht.sound hx hleft.1 hright.1
  have htrim := Text.trim_between ht.sound x y
  rw [hleft.2, hright.2] at htrim
  rw [split, hcut, List.nil_append, List.map_singleton, htrim, List.filter_cons_of_pos (by simp [Part.between, Part.text])]
  rfl

/-- Further citations do not change what kind of clause it is. -/
theorem kindOf_moreCited {ts : List Text} (hts : ∀ t ∈ ts, Title.Citable t) (ls : List Letter) :
    kindOf ls (letters (Title.moreCited ts)) = kindOf ls (letters []) := by
  have hcomma : statusVerb.find none (letters ", ".toList) = none ∧ statusAlias.find none (letters ", ".toList) = none ∧
      addVerb.find none (letters ", ".toList) = none ∧ removeVerb.find none (letters ", ".toList) = none := by
    decide +kernel
  obtain ⟨hset, halias, hadd, hremove⟩ := hcomma
  have hopens : ∀ {p : Pattern}, p.StopsAtQuotes → p.find none (letters ", ".toList) = none →
      p.opensIn (letters (Title.moreCited ts)) = p.opensIn (letters []) := by
    intro p hp hnone
    rw [Pattern.opensIn, Pattern.opensIn, Title.find_moreCited hp hnone hts]
    exact congrArg Option.isSome (p.find_nil none).symm
  unfold kindOf
  rw [hopens statusVerb_stops hset, hopens statusAlias_stops halias, hopens addVerb_stops hadd,
    hopens removeVerb_stops hremove]

section
variable {t : Text} (ht : Title.Citable t)
include ht

theorem verbTitles_moreCited {ts : List Text} (hts : ∀ u ∈ ts, Title.Citable u)
    (hdistinct : ((t :: ts).map fun u => (Title.normalize u).lowercase).Nodup) :
    verbTitles ((Part.quoted '"' t '"').between [' '] (Title.moreCited ts)) = (t :: ts).map Title.normalize := by
  have hspace : Closed [' '] := by decide
  have hquoted : Title.quotedIn [' '] = [] := by decide
  have hbare : ∀ c ∈ Quote.withoutQuoted [' '] ++ ',' :: Quote.withoutQuoted (Title.moreCited ts),
      c = ',' ∨ isBlank c = true := by
    refine List.forall_mem_append.2 ⟨?_, List.forall_mem_cons.2 ⟨.inl rfl, Title.bare_moreCited hts⟩⟩
    exact List.forall_mem_singleton.2 (.inr (by decide))
  rw [verbTitles_between hspace ht.sound ht.named, hquoted, Title.plainIn_of_bare hbare, Title.quotedIn_moreCited hts,
    List.append_nil, List.nil_append, ← List.map_cons]
  exact distinctBy_of_nodup Text.lowercase (by rw [List.map_map]; exact hdistinct)

theorem verbActions_moreCited (l : VerbLead) {ts : List Text} (hts : ∀ u ∈ ts, Title.Citable u)
    (hdistinct : ((t :: ts).map fun u => (Title.normalize u).lowercase).Nodup) :
    verbActions l.verb l.stop l.write ((Part.quoted '"' t '"').between l.text (Title.moreCited ts)) =
      (t :: ts).map fun u => l.write (Title.normalize u) := by
  obtain ⟨-, hfind, hstop, hcomma⟩ := l.scans
  have hend := findAfter_followed_of_none l.stopStops ht.sound (letters (Title.moreCited ts)) hstop
  rw [Title.find_moreCited l.stopStops hcomma hts, Option.map_none] at hend
  have hwindow : verbWindow? l.verb l.stop ((Part.quoted '"' t '"').between l.text (Title.moreCited ts)) =
      some (windowAfter l.stop (followed l.found (.quoted '"' t '"') (letters (Title.moreCited ts)))) := by
    rw [verbWindow?_eq, Quote.letters_between l.closed ht.sound,
      Pattern.find_before_quotation l.verbStops ht.sound _ hfind]
    rfl
  rw [windowAfter, hend, followed, plain_quotation, l.after, plain_letters] at hwindow
  rw [verbActions, hwindow, Option.map_some, Option.getD_some, verbTitles_moreCited ht hts hdistinct, List.map_map]
  rfl

theorem actions_verbLead (l : VerbLead) {ts : List Text} (hts : ∀ u ∈ ts, Title.Citable u)
    (hdistinct : ((t :: ts).map fun u => (Title.normalize u).lowercase).Nodup) :
    actions ((Part.quoted '"' t '"').between l.text (Title.moreCited ts)) =
      (t :: ts).map fun u => l.write (Title.normalize u) := by
  have hkind : Clause.kind ((Part.quoted '"' t '"').between l.text (Title.moreCited ts)) = l.kind :=
    (kind_between l.closed ht.sound ht.named _).trans ((kindOf_moreCited hts _).trans l.scans.1)
  rw [l.reads _ hkind]
  exact verbActions_moreCited ht l hts hdistinct

end

/-! ## A status around a citation -/

/-- A verb in front of a citation and a link behind it, the pivot before the status. -/
structure StatusFrame where
  text : Text
  link : Text
  verb : Found
  pivot : Status → Found
  closed : Closed text
  around : plain verb.after = [' '] ∧ ∀ s, plain (pivot s).before = [' ']
  findsVerb : statusVerb.find none (letters text) = some verb ∧ Vocabulary.pivot.findAfter verb = none
  findsStatus : ∀ s : Status, Vocabulary.pivot.find none (letters (link ++ s.code)) = some (pivot s) ∧
    (statusAlias.findAfter (pivot s)).map Found.text = some s.code ∧
    statusAlias.opensIn (letters (link ++ s.code)) = true
  whole : delimiter.cut text = [] ++ [text] ∧ Text.trimLeft text = text
  wholeStatus : ∀ s : Status, delimiter.cut (link ++ s.code) = [link ++ s.code] ∧
    Text.trimRight (link ++ s.code) = link ++ s.code

def setTo : StatusFrame where
  text := "set ".toList
  link := " to ".toList
  verb := ⟨[], letters "set".toList, letters [' ']⟩
  pivot s := ⟨letters [' '], letters "to".toList, letters (' ' :: s.code)⟩
  closed := by decide
  around := ⟨rfl, fun _ => rfl⟩
  findsVerb := by decide +kernel
  findsStatus s := by cases s <;> decide +kernel
  whole := by decide +kernel
  wholeStatus s := by cases s <;> decide +kernel

def markAs : StatusFrame where
  text := "mark ".toList
  link := " as ".toList
  verb := ⟨[], letters "mark".toList, letters [' ']⟩
  pivot s := ⟨letters [' '], letters "as".toList, letters (' ' :: s.code)⟩
  closed := by decide
  around := ⟨rfl, fun _ => rfl⟩
  findsVerb := by decide +kernel
  findsStatus s := by cases s <;> decide +kernel
  whole := by decide +kernel
  wholeStatus s := by cases s <;> decide +kernel

end Clause

/-- Every code stands for its status. -/
theorem Status.ofWord?_code (s : Status) : Status.ofWord? s.code = some s := by cases s <;> decide +kernel

theorem Status.ofWord_code (s : Status) : Status.ofWord s.code = s := by rw [ofWord, ofWord?_code, Option.getD_some]

namespace Clause
open Vocabulary

section
variable (f : StatusFrame) {t : Text} (ht : Title.Citable t) (s : Status)
include ht

theorem statusWindow?_statusFrame :
    statusWindow? ((Part.quoted '"' t '"').between f.text (f.link ++ s.code)) =
      some ((Part.quoted '"' t '"').between [' '] [' '], s.code) := by
  obtain ⟨hverb, hnone⟩ := f.findsVerb
  obtain ⟨hpivot, hword, -⟩ := f.findsStatus s
  obtain ⟨hafter, hbefore⟩ := f.around
  have hend := findAfter_followed_of_none pivot_stops ht.sound (letters (f.link ++ s.code)) hnone
  rw [hpivot, Option.map_some] at hend
  rw [statusWindow?_eq, Quote.letters_between f.closed ht.sound,
    Pattern.find_before_quotation statusVerb_stops ht.sound _ hverb, Option.bind_some]
  refine (statusAfter_of_pivot hend).trans ?_
  have hwindow : plain (f.verb.after ++ (Part.quoted '"' t '"').letters ++ (f.pivot s).before) =
      (Part.quoted '"' t '"').between [' '] [' '] := by rw [plain_quotation, hafter, hbefore]
  rw [findAfter_behind, hword, Option.some_or, Option.map_some]
  exact congrArg (fun w => some (w, s.code)) hwindow

theorem actions_statusFrame :
    actions ((Part.quoted '"' t '"').between f.text (f.link ++ s.code)) = [.setStatus (Title.normalize t) s.code] := by
  have hspace : Closed [' '] := by decide
  have hquoted : Title.quotedIn [' '] = [] := by decide
  have hkind : kind ((Part.quoted '"' t '"').between f.text (f.link ++ s.code)) = .statusChange := by
    rw [kind_between f.closed ht.sound ht.named, kindOf, (f.findsStatus s).2.2, Pattern.opensIn, f.findsVerb.1]
    simp
  rw [actions, hkind]
  simp only
  rw [statusWindow?_statusFrame f ht s, Option.map_some, Option.getD_some]
  simp only
  rw [statusTitles_between hspace ht.sound ht.named, hquoted, Status.ofWord_code]
  rfl

end
end Clause

namespace Plan
open Clause

/-- **A verb and a list of citations** ask for the titles in order. -/
theorem ofText_verbLead (l : VerbLead) {ts : List Text} (hne : ts ≠ []) (hts : ∀ t ∈ ts, Title.Citable t)
    (hdistinct : (ts.map fun t => (Title.normalize t).lowercase).Nodup) :
    ofText (l.text ++ Text.joined ", ".toList (ts.map Title.cited)) =
      ts.map fun t => l.write (Title.normalize t) := by
  obtain ⟨t, us, rfl⟩ := List.exists_cons_of_ne_nil hne
  obtain ⟨ht, hus⟩ := List.forall_mem_cons.1 hts
  have htext : l.text ++ Text.joined ", ".toList ((t :: us).map Title.cited) =
      (Part.quoted '"' t '"').between l.text (Title.moreCited us) := by
    rw [Title.joined_cited, Part.between, List.append_assoc]
    rfl
  rw [htext, ofText, split_of_whole ht l.closed l.whole ⟨Title.cut_moreCited hus, Title.trimRight_moreCited hus⟩,
    List.flatMap_singleton, actions_verbLead ht l hus hdistinct]

theorem ofText_verbLead_one (l : VerbLead) {t : Text} (ht : Title.Citable t) :
    ofText (l.text ++ Title.cited t) = [l.write (Title.normalize t)] := by
  have hdistinct : ([t].map fun u => (Title.normalize u).lowercase).Nodup := by simp
  exact ofText_verbLead l (List.cons_ne_nil t []) (List.forall_mem_singleton.2 ht) hdistinct

/-- **A status around a citation** is asked for. -/
theorem ofText_statusFrame (f : StatusFrame) {t : Text} (ht : Title.Citable t) (s : Status) :
    ofText (f.text ++ Title.cited t ++ (f.link ++ s.code)) = [.setStatus (Title.normalize t) s.code] := by
  have hsplit := split_of_whole ht f.closed f.whole (f.wholeStatus s)
  change ofText ((Part.quoted '"' t '"').between f.text (f.link ++ s.code)) = _
  rw [ofText, hsplit, List.flatMap_singleton, actions_statusFrame f ht s]

end Plan
end WatchList
