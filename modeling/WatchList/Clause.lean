import WatchList.Action
import WatchList.Pattern.Open
import WatchList.Title
/-!
# Clauses

An instruction is a sequence of clauses, separated by conjunctions, periods and semicolons outside quotations.  What a
clause asks for is decided by the first of these that holds:

1. it has a status verb and a status: its titles are given that status;
2. it has a verb that adds;
3. it has a verb that removes;
4. it has a quotation that names a title: the quoted titles are added;
5. otherwise it asks for nothing.

Verbs, statuses and stop words count only outside quotations.  The titles of a clause stand in its **window**, the
letters from the verb to the word that ends them.
-/
namespace WatchList

/-- What a clause asks for. -/
inductive ClauseKind where
  | statusChange
  | add
  | remove
  | quotedTitles
  | nothing
deriving DecidableEq, Repr

namespace Clause

/-- The clauses of an instruction: trimmed, in order, blank ones left out. -/
def split (instruction : Text) : List Text :=
  ((Vocabulary.delimiter.cut instruction).map Text.trim).filter fun c => !c.isEmpty

def kind (clause : Text) : ClauseKind :=
  let ls := Quote.letters clause
  if Vocabulary.statusVerb.opensIn ls && Vocabulary.statusAlias.opensIn ls then .statusChange
  else if Vocabulary.addVerb.opensIn ls then .add
  else if Vocabulary.removeVerb.opensIn ls then .remove
  else if !(Title.quotedIn clause).isEmpty then .quotedTitles
  else .nothing

/-! ## Windows -/

def plain (ls : List Letter) : Text := ls.map Letter.char

/-- The text from the first verb of a kind to the next stop word, or to the end of the clause. -/
def verbWindow? (verb stop : Pattern) (clause : Text) : Option Text :=
  (verb.find none (Quote.letters clause)).map fun v =>
    match stop.findAfter v with
    | some s => plain s.before
    | none => plain v.after

/-- The window of a status change and the words of its status.  The window ends at the first pivot after the verb, or
without one at the first status after the verb, or else with the clause.  The status is the first one after the pivot,
or without a pivot after the verb, or else the first one of the clause. -/
def statusWindow? (clause : Text) : Option (Text × Text) :=
  let ls := Quote.letters clause
  (Vocabulary.statusVerb.find none ls).bind fun v =>
    let anywhere := Vocabulary.statusAlias.find none ls
    match Vocabulary.pivot.findAfter v with
    | some p => ((Vocabulary.statusAlias.findAfter p).or anywhere).map fun a => (plain p.before, a.text)
    | none =>
      match Vocabulary.statusAlias.findAfter v with
      | some a => some (plain a.before, a.text)
      | none => anywhere.map fun a => (plain v.after, a.text)

/-! ## Titles and actions -/

/-- The titles of a window after a verb: the quoted ones first, then the others. -/
def verbTitles (window : Text) : List Text :=
  Title.distinct (Title.quotedIn window ++ Title.plainIn (Quote.withoutQuoted window))

/-- The titles of the window of a status change: the quoted ones or, if there are none, the others. -/
def statusTitles (window : Text) : List Text :=
  let quoted := Title.quotedIn window
  Title.distinct (if quoted.isEmpty then Title.plainIn window else quoted)

def actions (clause : Text) : List Action :=
  match kind clause with
  | .statusChange =>
    ((statusWindow? clause).map fun (window, word) =>
      (statusTitles window).map (.setStatus · (Status.ofWord word).code)).getD []
  | .add =>
    ((verbWindow? Vocabulary.addVerb Vocabulary.addStop clause).map fun window =>
      (verbTitles window).map .add).getD []
  | .remove =>
    ((verbWindow? Vocabulary.removeVerb Vocabulary.removeStop clause).map fun window =>
      (verbTitles window).map .remove).getD []
  | .quotedTitles => (Title.quotedIn clause).map .add
  | .nothing => []

end Clause
end WatchList
