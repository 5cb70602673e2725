import WatchList.Catalog.Table
/-!
# The catalog as JSON

A dump of the catalog is a JSON array with one object for each row, two blanks deeper for each level.
-/
namespace WatchList
namespace Export

def hexDigit (n : Nat) : Char := Nat.digitChar n

/-- How a character stands in a JSON string. -/
def escape (c : Char) : Text :=
  if c = '"' then ['\\', '"']
  else if c = '\\' then ['\\', '\\']
  else if c = '\x08' then ['\\', 'b']
  else if c = '\x0C' then ['\\', 'f']
  else if c = '\n' then ['\\', 'n']
  else if c = '\r' then ['\\', 'r']
  else if c = '\t' then ['\\', 't']
  else if c < ' ' then "\\u00".toList ++ [hexDigit (c.toNat / 16), hexDigit (c.toNat % 16)]
  else [c]

def string (t : Text) : Text := '"' :: (t.flatMap escape ++ ['"'])

/-- A key and its value on a line of their own. -/
def field (key value : Text) : Text := "    ".toList ++ string key ++ ": ".toList ++ value

def row (r : Row) : Text :=
  "  \x7b\n".toList ++
    Text.joined ",\n".toList
      [field "title".toList (string r.title), field "status".toList (string r.status.code),
       field "updated_at".toList (string r.updatedAt), field "revision".toList (Text.ofNat r.revision)] ++
    "\n  \x7d".toList

def rows (rs : List Row) : Text :=
  if rs.isEmpty then "[]".toList else "[\n".toList ++ Text.joined ",\n".toList (rs.map row) ++ "\n]".toList

end Export
end WatchList
