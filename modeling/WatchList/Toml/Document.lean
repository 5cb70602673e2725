import WatchList.Toml.Scalar
/-!
# TOML documents

A document is read line by line: a key with its value, a header, or nothing.  `Document.read` gives the entries of the
whole document, or nothing if the text is no TOML.
-/
namespace WatchList
namespace Toml

open Lexeme

/-! ## Arrays and tables in braces -/

/-- The rest of an array, behind its bracket or a comma. -/
def itemsOf (item : Reader Value) (t : Text) : Option (List Value × Text) :=
  match skipVoid false t with
  | ']' :: rest => some ([], rest)
  | t' =>
    match item t' with
    | none => none
    | some (v, t₁) =>
      match skipVoid false t₁ with
      | ']' :: rest => some ([v], rest)
      | ',' :: t₂ => if t₂.length < t.length then (itemsOf item t₂).map fun (vs, r) => (v :: vs, r) else none
      | _ => none
termination_by t.length

def keyValue (item : Reader Value) (t : Text) : Option ((List Text × Value) × Text) :=
  match key t with
  | some (path, '=' :: t) => (item (skipSpace t)).map fun (v, rest) => ((path, v), rest)
  | _ => none

/-- The keys and values of a table in braces, the first of them next. -/
def pairsOf (item : Reader Value) (t : Text) : Option (List (List Text × Value) × Text) :=
  match keyValue item t with
  | none => none
  | some (kv, t₁) =>
    match skipSpace t₁ with
    | '}' :: rest => some ([kv], rest)
    | ',' :: t₂ => if t₂.length < t.length then (pairsOf item t₂).map fun (kvs, r) => (kv :: kvs, r) else none
    | _ => none
termination_by t.length

/-- The table of keys and values in braces. -/
def bracesOf (pairs : List (List Text × Value)) : Option Value :=
  (pairs.foldlM (fun es (path, v) => Entries.put v path es) []).map (.table .braces)

def valueWithin : Nat → Reader Value
  | 0 => Scalar.scalar
  | depth + 1 => fun t =>
    match t with
    | '[' :: t => (itemsOf (valueWithin depth) t).map fun (vs, rest) => (.array vs, rest)
    | '\x7b' :: t =>
      match skipSpace t with
      | '}' :: rest => some (.table .braces [], rest)
      | _ =>
        match pairsOf (valueWithin depth) t with
        | some (pairs, rest) => (bracesOf pairs).map (·, rest)
        | none => none
    | t => Scalar.scalar t

def value : Reader Value := valueWithin limit

/-! ## Lines -/

inductive Line where
  | blank
  | entry (path : List Text) (v : Value)
  | header (path : List Text)
  | rowHeader (path : List Text)
deriving Repr

def line (t : Text) : Option (Line × Text) :=
  match skipSpace t with
  | '[' :: '[' :: t =>
    match key t with
    | some (path, ']' :: ']' :: t) => (restOfLine t).map (.rowHeader path, ·)
    | _ => none
  | '[' :: t =>
    match key t with
    | some (path, ']' :: t) => (restOfLine t).map (.header path, ·)
    | _ => none
  | t =>
    match restOfLine t with
    | some rest => some (.blank, rest)
    | none =>
      match keyValue value t with
      | some ((path, v), t) => (restOfLine t).map (.entry path v, ·)
      | none => none

def lines (t : Text) : Option (List Line) :=
  if t.isEmpty then some []
  else
    match line t with
    | none => none
    | some (l, rest) => if rest.length < t.length then (lines rest).map (l :: ·) else none
termination_by t.length

/-! ## Documents -/

namespace Document

/-- The entries after lines under the header `path`. -/
def entriesFrom (path : List Text) (es : Entries) : List Line → Option Entries
  | [] => some es
  | .blank :: ls => entriesFrom path es ls
  | .entry k v :: ls => (es.within (Entries.put v k) path).bind fun es => entriesFrom path es ls
  | .header p :: ls => (es.header p).bind fun es => entriesFrom p es ls
  | .rowHeader p :: ls => (es.rowHeader p).bind fun es => entriesFrom p es ls

/-- The text without the mark that some editors put at its start. -/
def withoutMark : Text → Text
  | [] => []
  | c :: t => if c = '\uFEFF' then t else c :: t

def read (t : Text) : Option Entries := (lines (withoutMark t)).bind (entriesFrom [] [])

end Document

end Toml
end WatchList
