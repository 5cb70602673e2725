import WatchList.Command.Basic
import WatchList.Proofs.Joining
import WatchList.Proofs.Weighing
/-!
# Marks that are read as instructions

*seen* and *dislike* are commands for one title, but no verbs of an instruction.  A line that begins with one and plans
several actions is read as an instruction all the same, and then its first clause does not mark the title: what a verb
further on in the clause acts on is only a part of the title, by weight (`Clause.weight_after_verb`), and a title in
quotes is put on the wishlist.  So the mark is always lost (`Command.mark_lost`).
-/
namespace WatchList

open Quote (letters)

/-! ## The first clause -/

namespace Command

/-- The commands that mark one title. -/
def markCommands : List Text := ["seen", "dislike"].map String.toList

theorem scan_markCommands : ∀ name ∈ markCommands, Quote.Closed name ∧ name ≠ [] ∧
    (name.any isBlank) = false ∧ Vocabulary.delimiter.cut name = [] ++ [name] ∧
    (Vocabulary.statusVerb.find none (letters name)) = none ∧
    (Vocabulary.removeVerb.find none (letters name)) = none := by decide +kernel

end Command

/-- What may stand behind the first word of a line: nothing, or something behind a space. -/
def Apart (t : Text) : Prop := t = [] ∨ ∃ r, t = ' ' :: r

namespace Clause

section
variable {name : Text} (hname : name ∈ Command.markCommands)
include hname

/-- **A line that begins with the command for a mark has a first clause that does.** -/
theorem split_mark_command {rest : Text} (hrest : Apart rest) :
    ∃ title others, split (name ++ rest) = (name ++ title) :: others ∧ Apart title := by
  obtain ⟨hclosed, hne, hblank, hcut, -⟩ := Command.scan_markCommands name hname
  have hword : ∀ c ∈ name, isBlank c = false := fun c hc => Bool.eq_false_iff.2 (List.any_eq_false.1 hblank c hc)
  have hfull : ∀ t : Text, (!(name ++ t).isEmpty) = true := fun t => by
    cases name with
    | nil => exact absurd rfl hne
    | cons c s => rfl
  rcases hrest with rfl | ⟨r, rfl⟩
  · refine ⟨[], [], ?_, .inl rfl⟩
    have hline : Vocabulary.delimiter.cut (name ++ []) = [name ++ []] := by
      rw [List.append_nil]
      exact hcut
    rw [split, hline, List.map_singleton, Text.trim_append_word hne hword]
    exact List.filter_cons_of_pos (hfull _)
  · obtain ⟨y, ys, hy⟩ := Pattern.cut_cons Vocabulary.delimiter r
    have hright : Pattern.cutTokens (.gap ⟨' ', false⟩ :: Vocabulary.delimiter.scan Letter.char none (letters r)) =
        (' ' :: y) :: ys := by
      rw [Pattern.cutTokens, ← Pattern.cut, hy]
      rfl
    have hline : Vocabulary.delimiter.cut (name ++ ' ' :: r) = (name ++ ' ' :: y) :: ys := by
      rw [Pattern.cut, Quote.letters_append hclosed, Quote.letters_cons rfl, scan_append_space,
        Pattern.cutTokens_append hcut hright, List.nil_append]
    refine ⟨Text.trimRight (' ' :: y), (ys.map Text.trim).filter fun c => !c.isEmpty, ?_, ?_⟩
    · rw [split, hline, List.map_cons, Text.trim_append_word hne hword]
      exact List.filter_cons_of_pos (hfull _)
    · rcases List.prefix_cons_iff.1 (Text.trimRight_isPrefix (' ' :: y)) with h | ⟨t, h, -⟩
      · exact .inl h
      · exact .inr ⟨t, h⟩

/-! ## What a verb in it acts on -/

/-- **A verb acts on less than the title**: what stands behind it in the clause weighs less than what stands behind the
command. -/
theorem weight_after_verb {table : List Text} (htable : table ⊆ Vocabulary.verbs)
    (hnone : (Pattern.word table).find none (letters name) = none) {title : Text} (htitle : Apart title) {v : Found}
    (hv : (Pattern.word table).find none (letters (name ++ title)) = some v) :
    (plain v.after).weight < title.weight := by
  obtain ⟨hclosed, -⟩ := Command.scan_markCommands name hname
  have hwords : Pattern.SingleWords table := fun w hw => Vocabulary.singleWords_verbs w (htable hw)
  obtain ⟨hbarrier, hskips⟩ := hwords.barrier_space
  rcases htitle with rfl | ⟨t, rfl⟩
  · rw [List.append_nil, hnone] at hv
    cases hv
  · rw [Quote.letters_append hclosed, Quote.letters_cons rfl,
      Pattern.find_append_skip (Pattern.word_within table) hbarrier hskips hnone rfl] at hv
    obtain ⟨g, hg, rfl⟩ := Option.map_eq_some_iff.1 hv
    have hitems : plain g.before ++ (g.text ++ plain g.after) = t := by
      rw [← Quote.char_letters t, ← Pattern.items_find hg, List.map_append, List.map_append, List.append_assoc]
      rfl
    have hverb := weight_verb (htable (Pattern.word_of_find hwords hg))
    have hweight : Text.weight (' ' :: t) = Text.weight t := rfl
    rw [hweight, ← hitems, Text.weight_append, Text.weight_append]
    show (plain g.after).weight < _
    omega

/-- **The first clause marks nothing**: an action of it that takes the whole title puts it on the wishlist. -/
theorem wanted_of_whole_title {title : Text} (htitle : Apart title) {a : Action} (ha : a ∈ actions (name ++ title))
    (hwhole : a.title = Title.normalize title) : a.status? = some .wanted := by
  obtain ⟨-, -, -, -, hstatus, hremove⟩ := Command.scan_markCommands name hname
  -- the whole title weighs what stands behind the command, and every verb acts on less
  have hweight : a.title.weight = title.weight := by rw [hwhole, Title.weight_normalize]
  unfold actions at ha
  cases hkind : kind (name ++ title) with
  | statusChange =>
    rw [hkind] at ha
    cases hwindow : statusWindow? (name ++ title) with
    | none => simp [hwindow] at ha
    | some p =>
      obtain ⟨window, word⟩ := p
      simp only [hwindow, Option.map_some, Option.getD_some] at ha
      obtain ⟨t, ht, rfl⟩ := List.mem_map.1 ha
      rw [statusWindow?_eq] at hwindow
      obtain ⟨v, hv, hafter⟩ := Option.bind_eq_some_iff.1 hwindow
      have hless := weight_after_verb hname (by decide) hstatus htitle hv
      have hread := weight_of_mem_statusTitles ht
      have hin := Text.weight_le_of_infix (infix_statusAfter hafter)
      simp only [Action.title] at hweight
      omega
  | add =>
    rw [hkind] at ha
    obtain ⟨v, t, -, -, rfl⟩ := exists_of_mem_verbActions ha
    rfl
  | remove =>
    rw [hkind] at ha
    obtain ⟨v, t, hv, hread, rfl⟩ := exists_of_mem_verbActions ha
    have hless := weight_after_verb hname (by decide) hremove htitle hv
    simp only [Action.title] at hweight
    omega
  | quotedTitles =>
    rw [hkind] at ha
    obtain ⟨t, -, rfl⟩ := List.mem_map.1 ha
    rfl
  | nothing =>
    rw [hkind] at ha
    cases ha

end
end Clause

namespace Command

theorem line_cons (name : Text) (rest : List Text) : ∃ t, line (name :: rest) = name ++ t ∧ Apart t := by
  cases rest with
  | nil => exact ⟨[], (List.append_nil name).symm, .inl rfl⟩
  | cons w ws => exact ⟨' ' :: line (w :: ws), List.append_assoc name [' '] (line (w :: ws)), .inr ⟨_, rfl⟩⟩

/-- **A mark that is read as an instruction is lost.**  When a line that begins with the command for a mark goes to the
interpreter, its first clause is the command with a title behind it, and an action of this clause that takes that title
puts it on the wishlist. -/
theorem mark_lost {name : Text} (hname : name ∈ markCommands) {rest : List Text}
    (hroute : route (name :: rest) = .interpret) :
    ofArgs (name :: rest) = .interpret (line (name :: rest)) ∧
      ∃ title others, Clause.split (line (name :: rest)) = (name ++ title) :: others ∧
        ∀ a ∈ Clause.actions (name ++ title), a.title = Title.normalize title → a.status? = some .wanted := by
  obtain ⟨t, hline, ht⟩ := line_cons name rest
  obtain ⟨title, others, hsplit, htitle⟩ := Clause.split_mark_command hname ht
  refine ⟨by rw [ofArgs, hroute], title, others, by rw [hline, hsplit], fun a ha hwhole => ?_⟩
  exact Clause.wanted_of_whole_title hname htitle ha hwhole

/-- In quotes the title is read, and goes to the wishlist. -/
theorem mark_lost_quoted :
    let args := ["dislike", "\"Heat\";", "add", "Dune"].map String.toList
    "dislike".toList ∈ markCommands ∧ route args = .interpret ∧
      Plan.ofText (line args) = [.add "Heat".toList, .add "Dune".toList] ∧
      ofArgs args = .interpret (line args) ∧
      ∃ title others, Clause.split (line args) = ("dislike".toList ++ title) :: others ∧
        ∀ a ∈ Clause.actions ("dislike".toList ++ title), a.title = Title.normalize title →
          a.status? = some .wanted := by
  intro args
  have hname : "dislike".toList ∈ markCommands := by decide
  have hread : route args = .interpret ∧ Plan.ofText (line args) = [.add "Heat".toList, .add "Dune".toList] := by
    decide +kernel
  exact ⟨hname, hread.1, hread.2, mark_lost hname hread.1⟩

/-- Without quotes the title is not read at all: a line that asks for a mark and two more actions is read as the two. -/
theorem mark_unread :
    let args := ["seen", "Heat;", "add", "Dune", "and", "remove", "Alien"].map String.toList
    route args = .interpret ∧
      Clause.split (line args) = ["seen Heat", "add Dune", "remove Alien"].map String.toList ∧
      Title.normalize " Heat".toList = "Heat".toList ∧ Clause.actions "seen Heat".toList = [] ∧
      Plan.ofText (line args) = [.add "Dune".toList, .remove "Alien".toList] := by
  decide +kernel

end Command
end WatchList
