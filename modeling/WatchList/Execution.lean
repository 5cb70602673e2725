import WatchList.Catalog.Basic
import WatchList.Plan
/-!
# Carrying out plans

The actions of a plan are carried out in order, each with at most one write.  An action that fails is reported and the
others go on, so carrying out a plan never ends in an error: it ends in a `Report`, and for the user in a summary.
-/
namespace WatchList

/-- What one run of a plan did. -/
structure Report where
  added : List Text := []
  removed : List Text := []
  /-- Status changes, one for each action. -/
  statusChanges : List Text := []
  errors : List Text := []
deriving DecidableEq, Repr

namespace Report

def isEmpty (r : Report) : Bool :=
  r.added.isEmpty && r.removed.isEmpty && r.statusChanges.isEmpty && r.errors.isEmpty

/-- The titles with one more at the end, unless it is there in some casing. -/
def insertTitle (titles : List Text) (title : Text) : List Text :=
  if titles.any fun t => t.lowercase == title.lowercase then titles else titles ++ [title]

def succeed (action : Action) (status : Status) (r : Report) : Report :=
  match action with
  | .add t => { r with added := insertTitle r.added t }
  | .remove t => { r with removed := insertTitle r.removed t }
  | .setStatus t _ => { r with statusChanges := r.statusChanges ++ [t ++ " → ".toList ++ status.code] }

def fail (action : Action) (e : Error) (r : Report) : Report :=
  { r with errors := r.errors ++ [action.render ++ ": ".toList ++ e.message] }

def reject (action : Action) (r : Report) : Report :=
  { r with errors := r.errors ++ [action.title ++ " → invalid status (".toList ++ action.word ++ ")".toList] }

def nothingToDo : Text := "No actions to perform.".toList

def nothingRecognized : Text := "No action recognized.".toList

/-- A labelled list as a sentence; an empty list gives none. -/
def sentence (label : Text) (items : List Text) : List Text :=
  if items.isEmpty then [] else [label ++ ": ".toList ++ Text.joined ", ".toList items ++ ".".toList]

/-- The report in words: one sentence for each kind of outcome, in a fixed order. -/
def render (r : Report) : Text :=
  let sentences := sentence "Added".toList r.added ++ sentence "Removed".toList r.removed ++
    sentence "Status changes".toList r.statusChanges ++ sentence "Errors".toList r.errors
  if sentences.isEmpty then nothingRecognized else Text.joined [' '] sentences

end Report

namespace Plan
variable {κ : Type} [Keeper κ]

/-- Carries out one action and adds to the report what came of it. -/
def step (action : Action) (r : Report) (c : κ) : Report × κ :=
  match action.status? with
  | none => (r.reject action, c)
  | some s =>
    match Keeper.write action.title s c with
    | (.ok (), c) => (r.succeed action s, c)
    | (.error e, c) => (r.fail action e, c)

/-- Carries out the actions in order, starting from a report. -/
def runFrom (r : Report) : Plan → κ → Report × κ
  | [], c => (r, c)
  | a :: as, c => runFrom (step a r c).1 as (step a r c).2

def run (p : Plan) (c : κ) : Report × κ := runFrom {} p c

/-- Carries out a plan and sums it up. -/
def execute (p : Plan) (c : κ) : Text × κ :=
  if p.isEmpty then (Report.nothingToDo, c) else ((p.run c).1.render, (p.run c).2)

/-- Reads an instruction, carries out its plan and sums it up. -/
def interpret (instruction : Text) (c : κ) : Text × κ :=
  if instruction.trim.isEmpty then (Report.nothingToDo, c)
  else
    let p := ofText instruction
    if p.isEmpty then (Report.nothingRecognized, c) else execute p c

end Plan
end WatchList
