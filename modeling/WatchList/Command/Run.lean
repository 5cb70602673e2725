import WatchList.Command.Answer
import WatchList.Storage.Opening
/-!
# Runs of the program

A run reads the settings, finds out what the command line asks for, opens the catalog if that needs one, and answers.  It
ends with an exit code: zero, unless the settings cannot be read, the catalog cannot be opened, or it fails later.
-/
namespace WatchList

/-- What a run finds around it, besides the files. -/
structure Environment where
  /-- The catalog that the environment names instead of the one in the settings. -/
  storage : Option Text
  clock : Text
  chance : Nat
  connections : Text

structure Outcome where
  code : Nat
  out : Text
  err : Text
deriving DecidableEq, Repr

namespace Outcome

def ofReply (r : Reply) : Outcome := ⟨0, r.out, r.err⟩

def failure (message : Text) : Outcome := ⟨1, [], "Error: ".toList ++ message ++ ['\n']⟩

end Outcome

namespace Command

def runWith (env : Environment) (settings : Settings) (command : Command) (f : Files) : Outcome × Files :=
  match plainReply? command with
  | some reply => (.ofReply reply, f)
  | none =>
    match f.openCatalog settings.storagePath with
    | (none, f) => (.failure ("Failed to open catalog at ".toList ++ settings.storagePath), f)
    | (some opened, f) =>
      let cs : Circumstances := ⟨settings, env.chance, env.connections⟩
      let catalog : Catalog Table := { holdings := { opened.table with clock := env.clock } }
      match (answer cs command catalog : Except Error Reply × Catalog Table) with
      | (.ok reply, c) => (.ofReply reply, f.keep opened c.holdings)
      | (.error e, c) => (.failure e.message, f.keep opened c.holdings)

/-- One run of the program with a command line. -/
def run (env : Environment) (args : List Text) (f : Files) : Outcome × Files :=
  match f.settings.bind fun file => Settings.load f.home file env.storage with
  | .error _ => (.failure "Failed to load configuration".toList, f)
  | .ok settings => runWith env settings (ofArgs args) f

end Command
end WatchList
