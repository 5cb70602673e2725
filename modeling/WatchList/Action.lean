import WatchList.StatusWord
/-!
# Actions

An action is one change to the catalog that an instruction asks for.  `Action.render` writes it as an instruction that
asks for just that change.
-/
namespace WatchList

/-- One change to the catalog. -/
inductive Action where
  | add (title : Text)
  /-- Take the title off the wishlist; it becomes disliked. -/
  | remove (title : Text)
  | setStatus (title word : Text)
deriving DecidableEq, Repr

namespace Action

def title : Action → Text
  | .add t => t
  | .remove t => t
  | .setStatus t _ => t

def word : Action → Text
  | .add _ => Status.wanted.code
  | .remove _ => Status.disliked.code
  | .setStatus _ w => w

/-- The status that an action writes, unless its word stands for none. -/
def status? : Action → Option Status
  | .add _ => some .wanted
  | .remove _ => some .disliked
  | .setStatus _ w => Status.ofWord? w

/-- The action as an instruction, its title in quotes. -/
def render : Action → Text
  | .add t => "add \"".toList ++ t ++ "\"".toList
  | .remove t => "remove \"".toList ++ t ++ "\"".toList
  | .setStatus t w => "set \"".toList ++ t ++ "\" to ".toList ++ w

end Action

end WatchList
