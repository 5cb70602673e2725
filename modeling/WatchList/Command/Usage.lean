import WatchList.Text.Basic
/-!
# Fixed texts of the command line

The version line and the page that explains the commands.
-/
namespace WatchList
namespace Command

def versionNumber : Text := "0.1.0".toList

def versionText : Text := "cinelist v".toList ++ versionNumber ++ "\n".toList

/-- The lines of the page that explains the commands, after its first. -/
def usageLines : List String :=
  ["",
   "USAGE:",
   "    cinelist <COMMAND> [ARGS]",
   "    cinelist <instruction>",
   "",
   "COMMANDS:",
   "    run <instruction>          Interpret and apply a free-form instruction",
   "    add <title>                Add a title to the wishlist",
   "    remove <title>             Take a title off the wishlist",
   "    seen <title>               Mark a title as seen",
   "    dislike <title>            Mark a title as disliked",
   "    status <title> <status>    Set any status on a title",
   "    show <title>               Show a title's status",
   "    add-many <titles>          Add comma-separated titles",
   "    remove-many <titles>       Remove comma-separated titles",
   "    set-many <status> <titles> Set a status on comma-separated titles",
   "    list [status]              List titles (default: every status)",
   "    sorted [status] [asc|desc] List titles alphabetically",
   "    stats                      Show catalog statistics",
   "    rename <old> <new>         Rename a title, keeping its status",
   "    prune [status]             Drop blank titles from a list",
   "    next [first|random]        Pick what to watch next",
   "    search <query>             Fuzzy search titles",
   "    export                     Dump the catalog as JSON",
   "    version                    Show version",
   "    help                       Show this help",
   "",
   "EXAMPLES:",
   "    cinelist run \"add Heat and mark Alien as seen\"",
   "    cinelist ajoute « Amélie » et retire Titanic de ma liste",
   "    cinelist set-many seen \"Heat, Alien\"",
   "    cinelist next first",
   "",
   "Storage defaults to ~/.cinelist/catalog.db (override with CINELIST_STORAGE).",
   ""]

def usageText : Text :=
  "cinelist v".toList ++ versionNumber ++ " - Tell your watch-list what to do in plain words\n".toList ++
    usageLines.flatMap fun l => l.toList ++ ['\n']

end Command
end WatchList
