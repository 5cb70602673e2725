import WatchList.Pick
import WatchList.Plan
import WatchList.Upkeep
/-!
# Commands

A command line is a list of words.  Most of the time its first word names a command and the others are its argument.  But
a line may also be an instruction in plain words, and `Command.route` tells the two apart: a line whose first word names
no command is an instruction if it sounds like several actions, and a line that begins with a command for one title is
one if it sounds so and really plans several.  So *add Pride and Prejudice* stays the name of one film.
-/
namespace WatchList

/-- Who deals with a command line. -/
inductive Route where
  /-- The interpreter, with the whole line as an instruction. -/
  | interpret
  | command
deriving DecidableEq, Repr

/-- What a command line asks for. -/
inductive Command where
  | usage
  | version
  | unknown (word : Text)
  /-- The command lacks something, as the message says. -/
  | incomplete (message : Text)
  | interpret (instruction : Text)
  | add (title : Text)
  | remove (title : Text)
  | markSeen (title : Text)
  | markDisliked (title : Text)
  | setStatus (title word : Text)
  | describe (title : Text)
  | addMany (titles : Text)
  | removeMany (titles : Text)
  | setMany (titles word : Text)
  | list (words : List Text)
  | sorted (word : Text) (order : SortOrder)
  | stats
  | rename (old new : Text)
  | prune (word : Text)
  | next (strategy? : Option PickStrategy)
  | search (query : Text)
  | dump
deriving DecidableEq, Repr

namespace Command

/-! ## Routing -/

def titleCommands : List Text := ["add", "remove", "seen", "dislike", "status"].map String.toList

def otherCommands : List Text :=
  ["run", "show", "add-many", "remove-many", "set-many", "list", "sorted", "stats", "rename", "prune", "next",
   "search", "export", "version", "-v", "--version", "help", "-h", "--help"].map String.toList

def line (args : List Text) : Text := Text.joined [' '] args

def route (args : List Text) : Route :=
  match args with
  | [] => .command
  | first :: _ =>
    if !Plan.soundsMultiple (line args) then .command
    else if titleCommands.contains first then
      if 1 < (Plan.ofText (line args)).length then .interpret else .command
    else if otherCommands.contains first then .command
    else .interpret

/-! ## Reading command lines -/

/-- A command that needs an argument, or the message that it lacks one. -/
def needing (message : Text) (args : List Text) (f : Text → Command) : Command :=
  if args.isEmpty then .incomplete message else f (line args)

def noTitle : Text := "Error: No title provided".toList

def named (name : Text) (args : List Text) : Command :=
  if name = "run".toList then .interpret (line args)
  else if name = "add".toList then needing noTitle args .add
  else if name = "remove".toList then needing noTitle args .remove
  else if name = "seen".toList then needing noTitle args .markSeen
  else if name = "dislike".toList then needing noTitle args .markDisliked
  else if name = "status".toList then
    match args.getLast? with
    | none => .incomplete "Usage: cinelist status <title> <status>".toList
    | some word => .setStatus (line args.dropLast) word
  else if name = "show".toList then needing noTitle args .describe
  else if name = "add-many".toList then .addMany (line args)
  else if name = "remove-many".toList then .removeMany (line args)
  else if name = "set-many".toList then
    match args with
    | [] => .incomplete "Usage: cinelist set-many <status> <title, title, ...>".toList
    | word :: titles => .setMany (line titles) word
  else if name = "list".toList then
    match args with
    | [] => .list (Status.all.map Status.code)
    | word :: _ => .list [word]
  else if name = "sorted".toList then
    .sorted (args.head?.getD Status.wanted.code) ((args[1]?.map SortOrder.ofWord).getD .ascending)
  else if name = "stats".toList then .stats
  else if name = "rename".toList then
    match args with
    | [old, new] => .rename old new
    | _ => .incomplete "Usage: cinelist rename \"<old title>\" \"<new title>\"".toList
  else if name = "prune".toList then .prune (args.head?.getD Status.wanted.code)
  else if name = "next".toList then .next (args.head?.map PickStrategy.ofWord)
  else if name = "search".toList then needing "Error: No search query provided".toList args .search
  else if name = "export".toList then .dump
  else if ["version".toList, "-v".toList, "--version".toList].contains name then .version
  else if ["help".toList, "-h".toList, "--help".toList].contains name then .usage
  else .unknown name

def ofArgs (args : List Text) : Command :=
  match args with
  | [] => .usage
  | name :: rest =>
    match route args with
    | .interpret => .interpret (line args)
    | .command => named name rest

end Command
end WatchList
