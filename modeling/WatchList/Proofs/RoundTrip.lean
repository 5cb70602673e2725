import WatchList.Proofs.Citations
/-!
# Actions written and read back

An action is written as an instruction with its title in quotes, and the quotes keep whatever the title says from
steering the reading.  So a written action reads as that action (`ofText_render`), and a plan with any separators between
its actions reads as the plan (`ofText_written`).
-/
namespace WatchList

open Quote (Closed Part)

namespace Action

/-- The title is in its normal form and not empty, and the word for the status is a code. -/
structure Canonical (a : Action) : Prop where
  named : a.title ≠ []
  normal : Title.normalize a.title = a.title
  coded : ∃ s : Status, a.word = s.code

instance : DecidablePred Canonical := fun a =>
  decidable_of_iff (a.title ≠ [] ∧ Title.normalize a.title = a.title ∧ ∃ s ∈ Status.all, a.word = s.code)
    ⟨fun ⟨hne, hn, s, _, hs⟩ => ⟨hne, hn, s, hs⟩, fun h => by
      obtain ⟨s, hs⟩ := h.coded
      exact ⟨h.named, h.normal, s, by cases s <;> decide, hs⟩⟩

def lead : Action → Text
  | .add _ => "add ".toList
  | .remove _ => "remove ".toList
  | .setStatus _ _ => "set ".toList

def tail : Action → Text
  | .setStatus _ w => " to ".toList ++ w
  | _ => []

def quotation (a : Action) : Part := .quoted '"' a.title '"'

theorem render_eq (a : Action) : a.render = a.quotation.between a.lead a.tail := by
  cases a with
  | add t =>
    show "add \"".toList ++ t ++ "\"".toList = "add ".toList ++ ('"' :: (t ++ ['"'])) ++ []
    simp
  | remove t =>
    show "remove \"".toList ++ t ++ "\"".toList = "remove ".toList ++ ('"' :: (t ++ ['"'])) ++ []
    simp
  | setStatus t w =>
    show "set \"".toList ++ t ++ "\" to ".toList ++ w = "set ".toList ++ ('"' :: (t ++ ['"'])) ++ (" to ".toList ++ w)
    simp

theorem Canonical.citable {a : Action} (h : a.Canonical) : Title.Citable a.title :=
  Title.Clean.citable ⟨h.named, h.normal⟩

theorem Canonical.sound {a : Action} (h : a.Canonical) : a.quotation.Sound := h.citable.sound

def leads : List Text := ["add ", "remove ", "set "].map String.toList

def tails : List Text := [] :: Status.all.map fun s => " to ".toList ++ s.code

theorem lead_mem (a : Action) : a.lead ∈ leads := by
  cases a with
  | add t => exact List.mem_cons_self
  | remove t => exact List.mem_cons_of_mem _ List.mem_cons_self
  | setStatus t w => exact List.mem_cons_of_mem _ (List.mem_cons_of_mem _ List.mem_cons_self)

theorem Canonical.tail_mem {a : Action} (h : a.Canonical) : a.tail ∈ tails := by
  cases a with
  | add t => exact List.mem_cons_self
  | remove t => exact List.mem_cons_self
  | setStatus t w =>
    obtain ⟨s, rfl⟩ : ∃ s : Status, w = s.code := h.coded
    exact List.mem_cons_of_mem _ (List.mem_map.2 ⟨s, by cases s <;> decide, rfl⟩)

theorem closed_lead (a : Action) : Closed a.lead := by
  have hall : ∀ t ∈ leads, Closed t := by decide
  exact hall _ a.lead_mem

theorem Canonical.closed_render {a : Action} (h : a.Canonical) : Closed a.render := by
  have hall : ∀ t ∈ tails, Closed t := by decide
  rw [render_eq, Part.between]
  exact (a.closed_lead.append h.sound.closed).append (hall _ h.tail_mem)

end Action

namespace Plan

def separators : List Text := ["; ", ". ", " and ", " then ", " et ", " puis "].map String.toList

theorem separates_of_mem_separators {sep : Text} (h : sep ∈ separators) : Clause.Separates sep := by
  have hall : ∀ sep ∈ separators, Clause.Separates sep := by decide
  exact hall sep h

/-- The plan as an instruction: its actions in order, `sep n` between two of them where `n` more follow the second. -/
def written (sep : Nat → Text) : Plan → Text
  | [] => []
  | [a] => a.render
  | a :: b :: as => a.render ++ sep as.length ++ written sep (b :: as)

theorem ofText_nil : ofText [] = [] := by
  rw [ofText, Clause.split, Pattern.cut_nil]
  rfl

/-- **A written action asks for itself.** -/
theorem ofText_render {a : Action} (h : a.Canonical) : ofText a.render = [a] := by
  rw [Action.render_eq]
  cases a with
  | add t =>
    have ht : Title.Citable t := h.citable
    have hn : Title.normalize t = t := h.normal
    change ofText (Clause.addLead.text ++ Title.cited t ++ []) = [.add t]
    rw [List.append_nil, ofText_verbLead_one Clause.addLead ht, hn]
    rfl
  | remove t =>
    have ht : Title.Citable t := h.citable
    have hn : Title.normalize t = t := h.normal
    change ofText (Clause.removeLead.text ++ Title.cited t ++ []) = [.remove t]
    rw [List.append_nil, ofText_verbLead_one Clause.removeLead ht, hn]
    rfl
  | setStatus t w =>
    obtain ⟨s, rfl⟩ : ∃ s : Status, w = s.code := h.coded
    have ht : Title.Citable t := h.citable
    have hn : Title.normalize t = t := h.normal
    change ofText (Clause.setTo.text ++ Title.cited t ++ (Clause.setTo.link ++ s.code)) = [.setStatus t s.code]
    rw [ofText_statusFrame Clause.setTo ht, hn]

theorem ofText_render_append {a : Action} (h : a.Canonical) {sep : Text} (hsep : sep ∈ separators) (b : Text) :
    ofText (a.render ++ sep ++ b) = a :: ofText b := by
  have hsplit := Clause.split_append h.closed_render (separates_of_mem_separators hsep) b
  have hread := ofText_render h
  rw [ofText] at hread ⊢
  rw [hsplit, List.flatMap_append, hread]
  rfl

/-- **A written plan is read back.**  Each action is written as an instruction with its title in quotes, and any
separator may stand at each place between two actions; the reading is the plan, whatever the titles say. -/
theorem ofText_written {sep : Nat → Text} (hsep : ∀ n, sep n ∈ separators) {p : Plan} (h : ∀ a ∈ p, a.Canonical) :
    ofText (p.written sep) = p := by
  induction p with
  | nil => exact ofText_nil
  | cons a as ih =>
    have ha := h a List.mem_cons_self
    have has := ih fun b hb => h b (List.mem_cons_of_mem a hb)
    cases as with
    | nil => exact ofText_render ha
    | cons b as => rw [written, ofText_render_append ha (hsep _), has]

/-- Titles with a delimiter, verbs, a pivot, a stop word and statuses in them, parted by a mark and a conjunction. -/
theorem ofText_written_hostile :
    (∀ n : Nat, (if n = 0 then " puis ".toList else "; ".toList) ∈ separators) ∧
      (∀ a ∈ [.add "Go; remove Dune".toList, .setStatus "mark it as seen".toList "disliked".toList,
        .remove "Heat, from seen".toList], Action.Canonical a) ∧
      ofText "add \"Go; remove Dune\"; set \"mark it as seen\" to disliked puis remove \"Heat, from seen\"".toList =
        [.add "Go; remove Dune".toList, .setStatus "mark it as seen".toList "disliked".toList,
          .remove "Heat, from seen".toList] := by
  have hsep : ∀ n : Nat, (if n = 0 then " puis ".toList else "; ".toList) ∈ separators := by
    intro n
    split <;> decide
  have hcanonical : ∀ a ∈ [.add "Go; remove Dune".toList, .setStatus "mark it as seen".toList "disliked".toList,
      .remove "Heat, from seen".toList], Action.Canonical a := by decide +kernel
  have htext : "add \"Go; remove Dune\"; set \"mark it as seen\" to disliked puis remove \"Heat, from seen\"".toList =
      written (fun n => if n = 0 then " puis ".toList else "; ".toList) [.add "Go; remove Dune".toList,
        .setStatus "mark it as seen".toList "disliked".toList, .remove "Heat, from seen".toList] := by
    decide +kernel
  refine ⟨hsep, hcanonical, ?_⟩
  rw [htext]
  exact ofText_written hsep hcanonical

end Plan
end WatchList
