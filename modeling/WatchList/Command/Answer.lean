import WatchList.Command.Basic
import WatchList.Command.Usage
import WatchList.Execution
import WatchList.Export
import WatchList.Library
import WatchList.Search.Basic
import WatchList.Settings
/-!
# Answers to commands

What a command does to the catalog and what it says.  An error that a tool gives for a title is told to the user, and the
command has still been carried out; any other error ends the program.
-/
namespace WatchList

/-- What a command says on the two outputs. -/
structure Reply where
  out : Text := []
  err : Text := []
deriving DecidableEq, Repr

/-- What the answers to a command depend on besides the command and the catalog. -/
structure Circumstances where
  settings : Settings
  chance : Nat
  connections : Text

namespace Reply

def say (t : Text) : Reply := { out := t ++ ['\n'] }

def complain (t : Text) : Reply := { err := t ++ ['\n'] }

end Reply

namespace Command

def rule : Text := List.replicate 60 '=' ++ ['\n']

/-- The titles as numbered lines, the first with the number `n`. -/
def numbered (n : Nat) : List Text → Text
  | [] => []
  | t :: ts => Text.padLeft 3 (Text.ofNat n) ++ ". ".toList ++ t ++ ['\n'] ++ numbered (n + 1) ts

/-- The titles under a heading. -/
def listing (heading : Text) (titles : List Text) : Text :=
  ['\n'] ++ heading ++ " (".toList ++ Text.ofNat titles.length ++ "):\n".toList ++ numbered 1 titles

def findings (query : Text) (hits : List Hit) : Text :=
  if hits.isEmpty then "No titles found matching '".toList ++ query ++ "'\n".toList
  else
    "\nFound ".toList ++ Text.ofNat hits.length ++ " title(s) matching '".toList ++ query ++ "':\n".toList ++ rule ++
      numbered 1 (hits.map fun h => h.title ++ " (".toList ++ h.status.code ++ ")".toList) ++ rule

def overview (place connections : Text) (t : Table) : Text :=
  let line (label value : Text) : Text := "  ".toList ++ label ++ value ++ ['\n']
  "\ncinelist Status\n".toList ++ rule ++ "\nCatalog:\n".toList ++
    line "Total:    ".toList (Text.ofNat t.total) ++
    line "Wanted:   ".toList (Text.ofNat (t.count .wanted)) ++
    line "Seen:     ".toList (Text.ofNat (t.count .seen)) ++
    line "Disliked: ".toList (Text.ofNat (t.count .disliked)) ++ "\nStorage:\n".toList ++
    line "Path:        ".toList place ++ line "Connections: ".toList connections ++ rule

def moved (title : Text) (status : Status) : Text := title ++ " → ".toList ++ status.code

/-- Work on the catalog with its reply; an error becomes a complaint. -/
def telling (w : Work Table α) (f : α → Text) : Work Table Reply := fun c =>
  match (w c : Except Error α × Catalog Table) with
  | (.ok a, c) => (.ok (.say (f a)), c)
  | (.error e, c) => (.ok (.complain ("Error: ".toList ++ e.advice)), c)

def looking (f : Table → Except Error α) : Work Table α := fun c => ((c.look f).bind id, c)

/-- The listings of statuses, under the words they were asked for with. -/
def listings : List Text → Work Table Text
  | [] => pure []
  | w :: ws => do
    let titles ← Library.list w
    return listing w titles ++ (← listings ws)

def plainReply? : Command → Option Reply
  | .usage => some { out := usageText }
  | .version => some { out := versionText }
  | .unknown word => some { out := usageText, err := "Unknown command: ".toList ++ word ++ ['\n'] }
  | .incomplete message => some (.complain message)
  | _ => none

def answer (cs : Circumstances) : Command → Work Table Reply
  | .interpret instruction => fun c =>
    (.ok (.say (Plan.interpret instruction c).1), (Plan.interpret instruction c).2)
  | .add title => telling (Library.add title) fun
    | .one t => "Added to wishlist: ".toList ++ t
    | .many n => "Added ".toList ++ Text.ofNat n ++ " title(s) to wishlist".toList
  | .remove title => telling (Library.remove title) fun t => moved t .disliked
  | .markSeen title => telling (Library.markSeen title) fun t => moved t .seen
  | .markDisliked title => telling (Library.markDisliked title) fun t => moved t .disliked
  | .setStatus title word => telling (Library.setStatus title word) fun (t, s) => moved t s
  | .describe title => telling (looking (Table.row (Title.normalize title))) fun r =>
    r.title ++ " (".toList ++ r.status.code ++ ", updated ".toList ++ r.updatedAt ++ ")".toList
  | .addMany titles => do
    return .say ("Added ".toList ++ Text.ofNat (← Bulk.add titles) ++ " title(s) to wishlist".toList)
  | .removeMany titles => do
    return .say ("Removed ".toList ++ Text.ofNat (← Bulk.remove titles) ++ " title(s) from wishlist".toList)
  | .setMany titles word => do
    let (n, s) ← Bulk.setStatus titles word
    return .say ("Set ".toList ++ Text.ofNat n ++ " title(s) to ".toList ++ s.code)
  | .list words => do
    return { out := ← listings words }
  | .sorted word order => do
    return { out := listing word (← Upkeep.sorted word order) }
  | .stats => do
    return { out := ← looking fun t => .ok (overview cs.settings.storagePath cs.connections t) }
  | .rename old new => telling (Upkeep.rename old new) fun s =>
    "Renamed ".toList ++ old ++ " → ".toList ++ new ++ " (".toList ++ s.code ++ ")".toList
  | .prune word => do
    return .say ("Pruned ".toList ++ Text.ofNat (← Upkeep.prune word) ++ " blank title(s)".toList)
  | .next strategy? => do
    match ← Pick.next (strategy?.getD cs.settings.pickStrategy) cs.chance with
    | some t => return .say ("Up next: ".toList ++ t)
    | none => return .say "Your wishlist is empty.".toList
  | .search query => do
    return { out := findings query (← Search.run query cs.settings.searchLimit) }
  | .dump => do
    return .say (← looking fun t => .ok (Export.rows t.all))
  | c => pure ((plainReply? c).getD {})

end Command
end WatchList
