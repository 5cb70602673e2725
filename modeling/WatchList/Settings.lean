import WatchList.Error
import WatchList.Pick
import WatchList.Toml.Document
import WatchList.Toml.Writer
/-!
# Settings

Where the catalog is kept, what is logged, how the next title is picked and how many titles a search shows.  The settings
are read from a TOML file in the user's home directory.  A key that the file does not have keeps its default, and a key
that is no setting is passed over; a setting of the wrong type spoils the file.
-/
namespace WatchList

/-- What the user can set. -/
structure Settings where
  storagePath : Text
  logFilter : Text
  pickStrategy : PickStrategy
  /-- The greatest number of titles that a search shows. -/
  searchLimit : Nat
deriving DecidableEq, Repr

namespace Settings

def directory (home : Text) : Text := home ++ "/.cinelist".toList

def path (home : Text) : Text := directory home ++ "/config.toml".toList

def default (home : Text) : Settings where
  storagePath := directory home ++ "/catalog.db".toList
  logFilter := "cinelist=info".toList
  pickStrategy := .random
  searchLimit := 10

/-! ## Reading -/

def textOf? : Toml.Value → Option Text
  | .string t => some t
  | _ => none

/-- A value without anything in it. -/
def isHollow : Toml.Value → Bool
  | .table _ [] => true
  | .array [] => true
  | .rows [] => true
  | _ => false

def strategyOf? : Toml.Value → Option PickStrategy
  | .string t => PickStrategy.ofCode? t
  | .table _ [(k, v)] => if isHollow v then PickStrategy.ofCode? k else none
  | _ => none

def limitOf? : Toml.Value → Option Nat
  | .integer n => if 0 ≤ n then some n.toNat else none
  | _ => none

/-- The setting under a key, read by `of?`, or `default` if the key is not there; nothing if it is of another type. -/
def under (es : Toml.Entries) (key : Text) (of? : Toml.Value → Option α) (default : α) : Option α :=
  match es.lookup key with
  | none => some default
  | some v => of? v

/-- The settings of a TOML document, the others as in `base`. -/
def ofEntries? (base : Settings) (es : Toml.Entries) : Option Settings := do
  return {
    storagePath := ← under es "storage_path".toList textOf? base.storagePath
    logFilter := ← under es "log_filter".toList textOf? base.logFilter
    pickStrategy := ← under es "pick_strategy".toList strategyOf? base.pickStrategy
    searchLimit := ← under es "search_limit".toList limitOf? base.searchLimit }

def parse? (base : Settings) (t : Text) : Option Settings := (Toml.Document.read t).bind (ofEntries? base)

def ofFile (home : Text) (bytes : ByteArray) : Except Error Settings :=
  match String.fromUTF8? bytes with
  | none => .error (.io "stream did not contain valid UTF-8".toList)
  | some s =>
    match parse? (default home) s.toList with
    | some settings => .ok settings
    | none => .error (.config (path home ++ ": not a settings file".toList))

/-- The settings of a user: from the settings file, if there is one, and with another catalog if the environment names
one that is not blank. -/
def load (home : Text) (file : Option ByteArray) (storage : Option Text) : Except Error Settings := do
  let settings ← match file with
    | none => .ok (default home)
    | some bytes => ofFile home bytes
  match storage with
  | none => return settings
  | some p => return if p.trim.isEmpty then settings else { settings with storagePath := p }

/-! ## Writing -/

/-- The greatest integer of TOML, `2 ^ 63 - 1`. -/
def greatestLimit : Nat := 9223372036854775807

/-- The settings as a file.  TOML has no integer above `greatestLimit`. -/
def render (s : Settings) : Except Error Text :=
  if s.searchLimit ≤ greatestLimit then
    .ok (Toml.Writer.entry "storage_path".toList (Toml.Writer.string s.storagePath) ++
      Toml.Writer.entry "log_filter".toList (Toml.Writer.string s.logFilter) ++
      Toml.Writer.entry "pick_strategy".toList (Toml.Writer.string s.pickStrategy.code) ++
      Toml.Writer.entry "search_limit".toList (Text.ofNat s.searchLimit))
  else .error (.config "a number is out of range".toList)

/-- Saving the settings to a file: the answer, and the file after it.  Settings that cannot be written leave the file as it
was. -/
def save (s : Settings) (file : Option ByteArray) : Except Error Unit × Option ByteArray :=
  match s.render with
  | .ok t => (.ok (), some (String.ofList t).toUTF8)
  | .error e => (.error e, file)

end Settings
end WatchList
