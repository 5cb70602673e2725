import WatchList.Quote
import WatchList.Distinct
import WatchList.Vocabulary
/-!
# Titles

A title is a text in its normal form: no quotes, no blanks at the ends, and one space between words.  Whatever a user
types as a title is brought into this form first, and a text whose normal form is empty names no title.  Two titles that
agree in small letters are one title in two spellings.
-/
namespace WatchList
namespace Title

/-- The normal form: quotes dropped, words one space apart. -/
def normalize (raw : Text) : Text := Text.collapsed (raw.filter fun c => !isQuote c)

def ofAll (raws : List Text) : List Text := (raws.map normalize).filter fun t => !t.isEmpty

def isSeparator (c : Char) : Bool := c == ',' || c == '\n'

/-- The titles of a list written with commas or line ends. -/
def ofList (raw : Text) : List Text := ofAll (Text.pieces isSeparator raw)

def quotedIn (t : Text) : List Text := ofAll (Quote.inners t)

/-- The title in a fragment without quotations: mentions of the list and bare possessives are dropped first. -/
def withoutFiller (fragment : Text) : Text :=
  normalize (Vocabulary.possessive.replaceAll [' '] (Vocabulary.fillerPhrase.replaceAll [' '] fragment))

/-- The titles of a text without quotations, between commas, line ends and conjunctions. -/
def plainIn (t : Text) : List Text :=
  ((Text.pieces isSeparator (Vocabulary.conjunction.replaceAll [','] t)).map withoutFiller).filter
    fun t => !t.isEmpty

def distinct (titles : List Text) : List Text := distinctBy Text.lowercase titles

end Title
end WatchList
