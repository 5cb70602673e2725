import WatchList.Text.Basic
/-!
# What can go wrong

Each error names its cause.  `Error.message` is the wording for a summary or a log, `Error.advice` the wording for the
user.
-/
namespace WatchList

/-- What a catalog kept in a file may answer instead of rows. -/
inductive StoreFault where
  /-- A row was required and none was there. -/
  | rowMissing
  /-- The catalog is closed. -/
  | closed
deriving DecidableEq, Repr

inductive Error where
  | database (fault : StoreFault)
  | io (detail : Text)
  | serialization (detail : Text)
  | config (detail : Text)
  | invalidStatus (word : Text)
  | emptyTitle
  | titleNotFound (title : Text)
  | storage (detail : Text)
deriving DecidableEq, Repr

def StoreFault.detail : StoreFault → Text
  | .rowMissing => "no rows returned by a query that expected to return at least one row".toList
  | .closed => "attempted to acquire a connection on a closed pool".toList

namespace Error

/-- The short wording. -/
def message : Error → Text
  | .database fault => "Database error: ".toList ++ fault.detail
  | .io detail => "IO error: ".toList ++ detail
  | .serialization detail => "Serialization error: ".toList ++ detail
  | .config detail => "Configuration error: ".toList ++ detail
  | .invalidStatus word => "Invalid status: ".toList ++ word
  | .emptyTitle => "Title is empty".toList
  | .titleNotFound title => "Title not found: ".toList ++ title
  | .storage detail => "Storage error: ".toList ++ detail

/-- The wording for the user. -/
def advice : Error → Text
  | .database fault => "Database error occurred. Please try again. Details: ".toList ++ fault.detail
  | .io detail => "File system error. Check permissions. Details: ".toList ++ detail
  | .serialization detail => "Data format error: ".toList ++ detail
  | .config detail => "Configuration issue: ".toList ++ detail
  | .invalidStatus word => "'".toList ++ word ++ "' is not a known status (use wanted, seen or disliked)".toList
  | .emptyTitle => "A title is required".toList
  | .titleNotFound title => "'".toList ++ title ++ "' is not in your catalog".toList
  | .storage detail => "Catalog storage failed: ".toList ++ detail

end Error

end WatchList
