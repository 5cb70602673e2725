import WatchList.Catalog.Table
import WatchList.Toml.Document
import WatchList.Toml.Writer
/-!
# The file of a catalog

A catalog is kept as a TOML document with one `[[entry]]` for each row, in the order of the table.  Its first line
marks it as a catalog.
-/
namespace WatchList
namespace Table

def renderRow (r : Row) : Text :=
  "[[entry]]\n".toList ++
    Toml.Writer.entry "title".toList (Toml.Writer.string r.title) ++
    Toml.Writer.entry "status".toList (Toml.Writer.string r.status.code) ++
    Toml.Writer.entry "updated_at".toList (Toml.Writer.string r.updatedAt) ++
    Toml.Writer.entry "revision".toList (Text.ofNat r.revision)

def mark : Text := "# watch list\n".toList

def render (t : Table) : Text := mark ++ t.rows.flatMap renderRow

/-- The row that entries of the file stand for. -/
def rowOf? (es : Toml.Entries) : Option Row :=
  match es.lookup "title".toList, es.lookup "status".toList, es.lookup "updated_at".toList,
    es.lookup "revision".toList with
  | some (.string title), some (.string code), some (.string updatedAt), some (.integer revision) =>
    (Status.ofCode? code).map fun status => ⟨title, status, updatedAt, revision.toNat⟩
  | _, _, _, _ => none

def ofText? (t : Text) : Option Table :=
  if mark.isPrefixOf t then
    match Toml.Document.read t with
    | some [] => some {}
    | some [(_, .rows rows)] => (rows.mapM rowOf?).map ({ rows := · })
    | _ => none
  else none

end Table
end WatchList
