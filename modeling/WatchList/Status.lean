import WatchList.Error
import WatchList.Text.Blank
import WatchList.Text.Lowercase
/-!
# The status of a title

A title on the watch list is wanted, seen or disliked.  Each status has a code, the word under which it is stored and
shown.  `Status.ofCode?` reads a code in any casing and with blanks around it, and nothing else.
-/
namespace WatchList

inductive Status where
  | wanted
  | seen
  | disliked
deriving DecidableEq, Repr

namespace Status

/-- The statuses in the order in which they are listed and searched. -/
def all : List Status := [.wanted, .seen, .disliked]

/-- The word a status is stored and shown under. -/
def code : Status → Text
  | .wanted => "wanted".toList
  | .seen => "seen".toList
  | .disliked => "disliked".toList

def ofCode? (raw : Text) : Option Status :=
  all.find? fun s => s.code == raw.trim.lowercase

def parse (raw : Text) : Except Error Status :=
  match ofCode? raw with
  | some s => .ok s
  | none => .error (.invalidStatus raw)

/-- The status of a stored entry: a text that is no code counts as wanted. -/
def ofStored (raw : Text) : Status := (ofCode? raw).getD .wanted

end Status

end WatchList
