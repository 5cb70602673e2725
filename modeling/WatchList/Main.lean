import WatchList.Catalog.File
import WatchList.Command.Run
import Std.Time.Format
/-!
# The program

Reads what a run finds around it, carries the run out, prints what it says and leaves what it made.
-/
namespace WatchList
namespace Program

def textOf? (p : Place) : Option String :=
  String.fromUTF8? ⟨(Path.slash :: (p.flatMap fun name => name ++ [Path.slash]).dropLast).toArray⟩

/-- What a file holds: a catalog, or something else. -/
def Node.ofFile (content : ByteArray) : Node :=
  match (String.fromUTF8? content).bind fun s => Table.ofText? s.toList with
  | some table => .catalog table
  | none => .file content

def look (p : Place) : IO (Option Node) := do
  match textOf? p with
  | none => return none
  | some text =>
    let path := (← IO.currentDir) / text
    try
      match (← path.metadata).type with
      | .dir => return some (.directory [])
      | .file => return some (Node.ofFile (← IO.FS.readBinFile path))
      | _ => return some .other
    catch _ => return none

def workplace : IO Place := do return Place.follow [] (Path.ofString (← IO.currentDir).toString)

/-- The beginnings of a list, the shortest first. -/
def beginnings {α : Type} (l : List α) : List (List α) := (List.range (l.length + 1)).map l.take

/-- The places that paths pass, each after those above it. -/
def placesOn (paths : List Path) : IO (List Place) := do
  let start ← workplace
  let passed := paths.flatMap fun p =>
    (beginnings p.names).flatMap fun names =>
      beginnings (names.foldl Place.enter (if p.isAbsolute then [] else start))
  return passed.eraseDups.filter (· != [])

def files (home : Text) (places : List Place) : IO Files := do
  let mut f : Files := { home, workplace := ← workplace }
  for p in places do
    if let some node ← look p then f := f.put p node
  return f

/-- The paths that opening a catalog follows. -/
def pathsTo (catalog : Text) : List Path :=
  let p := Path.ofText catalog
  match Address.ofPath? p with
  | none => [p]
  | some a => p :: a.name :: (a.value? "modeof").toList

/-- Leaves at a place what a run has made of it. -/
def leave (p : Place) (before after : Files) : IO Unit := do
  match textOf? p with
  | none => return ()
  | some path =>
    match before.node? p, after.node? p with
    | none, some (.directory _) => IO.FS.createDir path
    | none, some (.file content) => IO.FS.writeBinFile path content
    | some (.catalog t), some (.catalog t') =>
      if t != t' then IO.FS.writeFile path (String.ofList t'.render)
    | _, some (.catalog t) => IO.FS.writeFile path (String.ofList t.render)
    | _, _ => return ()

def present : IO Text := do
  let now := (← Std.Time.Timestamp.now).toWallTime .zero
  return ((Std.Time.PlainDateTime.ofWallTime now).format "uuuu-MM-dd'T'HH:mm:ss.SSSSSS'Z'").toList

def run (args : List Text) : IO UInt32 := do
  let home := ((← IO.getEnv "HOME").getD ".").toList
  let storage := (← IO.getEnv "CINELIST_STORAGE").map String.toList
  let settingsPath := Path.ofText (Settings.path home)
  let around ← files home (← placesOn [settingsPath])
  let more := match around.settings.bind fun file => Settings.load home file storage with
    | .ok s => pathsTo s.storagePath
    | .error _ => []
  let places ← placesOn (settingsPath :: more)
  let before ← files home places
  let env : Environment := ⟨storage, ← present, ← IO.rand 0 1000000, "1 (1 idle)".toList⟩
  let (outcome, after) := Command.run env args before
  for p in places do
    leave p before after
  IO.print (String.ofList outcome.out)
  IO.eprint (String.ofList outcome.err)
  return outcome.code.toUInt32

end Program
end WatchList

def main (args : List String) : IO UInt32 := WatchList.Program.run (args.map String.toList)
