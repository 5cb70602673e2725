import WatchList.Status
import WatchList.Pattern.Scan
/-!
# The vocabulary

The words that instructions are made of, in English and in French, and the patterns that find them.  All words are in
small letters; the patterns take any casing.  A verb may belong to two tables: *mets* adds a title, and with a status
word in the clause it sets that status.
-/
namespace WatchList
namespace Vocabulary

/-! ## Words -/

def addVerbs : List Text :=
  ["add", "put", "place", "append", "include", "ajoute", "ajouter", "mets", "mettre", "placer"].map String.toList

def removeVerbs : List Text :=
  ["remove", "delete", "drop", "erase", "retire", "retirer", "supprime", "supprimer", "enleve", "enlève",
   "enlever"].map String.toList

def statusVerbs : List Text :=
  ["mark", "set", "flag", "marque", "marquer", "mets", "mettre"].map String.toList

/-- Words between two clauses, or between two titles. -/
def conjunctions : List Text := ["and", "then", "et", "puis"].map String.toList

/-- Words between the titles and the status they are given. -/
def pivots : List Text := ["as", "to", "into", "comme", "en", "dans"].map String.toList

/-- Words at which the titles to add end. -/
def addStops : List Text := ["to", "into", "onto", "in", "on", "à", "dans", "sur"].map String.toList

/-- Words at which the titles to remove end. -/
def removeStops : List Text := ["from", "off", "out of", "de", "du", "des"].map String.toList

def wantedAliases : List Text :=
  ["wanted", "want", "to watch", "to see", "wishlist", "watchlist", "envie", "liste d'envie"].map String.toList

def seenAliases : List Text :=
  ["seen", "watched", "already seen", "déjà vu", "deja vu", "déjà-vu", "deja-vu", "deja_vu", "vu"].map String.toList

def dislikedAliases : List Text :=
  ["disliked", "dislike", "not interested", "uninterested", "pas interessé", "pas intéressé", "pas interesse",
   "pas_interesse"].map String.toList

def statusAliases : List (Text × Status) :=
  wantedAliases.map (·, .wanted) ++ seenAliases.map (·, .seen) ++ dislikedAliases.map (·, .disliked)

/-- Words that say whose list is meant. -/
def possessives : List Text := ["my", "your", "our", "ma", "mon", "mes", "ta", "ton"].map String.toList

/-- Other words that stand before a list. -/
def listArticles : List Text := ["the", "this", "la", "le", "les", "cette"].map String.toList

/-- Words for the list itself. -/
def listNouns : List Text := ["watch list", "wish list", "watchlist", "wishlist", "list", "liste"].map String.toList

/-! ## Patterns -/

def addVerb : Pattern := .word addVerbs

def removeVerb : Pattern := .word removeVerbs

def statusVerb : Pattern := .word statusVerbs

def conjunction : Pattern := .word conjunctions

/-- A word before a status. -/
def pivot : Pattern := .word pivots

def addStop : Pattern := .word addStops

def removeStop : Pattern := .word removeStops

def statusAlias : Pattern := .word (statusAliases.map Prod.fst)

/-- What separates clauses: a conjunction, a period or a semicolon. -/
def delimiter : Pattern := conjunction.orElse (.one fun c => c == '.' || c == ';')

/-- A mention of the list, such as *my list* or *la liste d'envie*. -/
def fillerPhrase : Pattern :=
  ((Pattern.word (possessives ++ listArticles)).andThen .blanks).andThen
    ((Pattern.word listNouns).andThen (Pattern.perhaps (Pattern.blanks.andThen (.phrase "d'envie".toList))))

def possessive : Pattern := .word possessives

end Vocabulary
end WatchList
