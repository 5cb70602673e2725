import WatchList.Clause
/-!
# Plans

A plan is the list of actions of one instruction, clause by clause.  Titles are not compared across clauses: naming one
twice plans it twice.

`Plan.soundsMultiple` is a cheap test for texts that ask for several things at once: something that joins clauses, and
the stem of a verb, so that conjugated forms count too.
-/
namespace WatchList

abbrev Plan := List Action

namespace Plan

/-- The plan of an instruction: the actions of its clauses, in order. -/
def ofText (instruction : Text) : Plan := (Clause.split instruction).flatMap Clause.actions

def verbStems : List Text :=
  ["add", "ajout", "mets ", "met ", "mark", "marqu", "set ", "remov", "delet", "supprim", "retir", "enlèv",
   "enlev"].map String.toList

/-- The text joins clauses and has the stem of a verb in it. -/
def soundsMultiple (text : Text) : Bool :=
  let small := text.lowercase
  (Vocabulary.conjunction.occursIn small || small.contains ';' || small.contains '.') &&
    verbStems.any fun stem => Text.holds stem small

end Plan
end WatchList
