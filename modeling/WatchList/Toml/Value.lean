import WatchList.Text.Basic
/-!
# TOML values

A value of a TOML document, and the tables it is made of.  A table remembers how it came about, because that decides
whether it may still grow: a dotted key may only extend tables that dotted keys made, a header may define a table that
was so far only named on the way to another, and what is written in braces is complete.

* `Entries.put` gives a dotted key its value;
* `Entries.header` and `Entries.rowHeader` carry out the two kinds of headers;
* `Entries.within` works on the table that the last header opened.
-/
namespace WatchList
namespace Toml

/-- How a table came about. -/
inductive TableKind where
  | braces
  | header
  | implied
  | dotted
deriving DecidableEq, Repr

/-- A value.  Of numbers with a fraction and of dates only the text is kept. -/
inductive Value where
  | string (t : Text)
  | integer (n : Int)
  | float (t : Text)
  | boolean (b : Bool)
  | datetime (t : Text)
  | array (items : List Value)
  | table (kind : TableKind) (entries : List (Text × Value))
  /-- The tables that headers in double brackets define, in order. -/
  | rows (tables : List (List (Text × Value)))
deriving Repr

abbrev Entries := List (Text × Value)

namespace Entries

/-- The entries with another value for a key that is there. -/
def set (k : Text) (v : Value) (es : Entries) : Entries := es.map fun e => if e.1 == k then (k, v) else e

/-- The entries with the key at a path given a value.  The key must be new, and the table it goes into must be the table
at hand or one that dotted keys made; on the way there the last of some rows may be passed. -/
def put (v : Value) : List Text → Entries → Option Entries
  | [], _ => none
  | [k], es => if (es.lookup k).isSome then none else some (es ++ [(k, v)])
  | k :: ks, es =>
    match es.lookup k with
    | none => (put v ks []).map fun sub => es ++ [(k, .table .dotted sub)]
    | some (.table .dotted sub) => (put v ks sub).map fun sub => es.set k (.table .dotted sub)
    | some (.table .implied sub) =>
      if ks.length = 1 then none else (put v ks sub).map fun sub => es.set k (.table .implied sub)
    | some (.rows tables) =>
      match tables.getLast? with
      | none => none
      | some row =>
        if ks.length = 1 then none else (put v ks row).map fun row => es.set k (.rows (tables.dropLast ++ [row]))
    | some _ => none

/-- The entries after a change to the table at a path of headers; of rows the last is meant, and tables that are not
there come about. -/
def within (change : Entries → Option Entries) : List Text → Entries → Option Entries
  | [], es => change es
  | k :: ks, es =>
    match es.lookup k with
    | none => (within change ks []).map fun sub => es ++ [(k, .table .implied sub)]
    | some (.table .braces _) => none
    | some (.table kind sub) => (within change ks sub).map fun sub => es.set k (.table kind sub)
    | some (.rows tables) =>
      match tables.getLast? with
      | none => none
      | some row => (within change ks row).map fun row => es.set k (.rows (tables.dropLast ++ [row]))
    | some _ => none

def header (path : List Text) (es : Entries) : Option Entries :=
  match path.getLast? with
  | none => none
  | some k =>
    es.within (fun es =>
      match es.lookup k with
      | none => some (es ++ [(k, .table .header [])])
      | some (.table .implied sub) => some (es.set k (.table .header sub))
      | some _ => none) path.dropLast

def rowHeader (path : List Text) (es : Entries) : Option Entries :=
  match path.getLast? with
  | none => none
  | some k =>
    es.within (fun es =>
      match es.lookup k with
      | none => some (es ++ [(k, .rows [[]])])
      | some (.rows tables) => some (es.set k (.rows (tables ++ [[]])))
      | some _ => none) path.dropLast

end Entries

end Toml
end WatchList
