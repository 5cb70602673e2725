import WatchList.Text.Basic
/-!
# TOML lexemes

Readers for the smallest parts of a TOML document.  A `Reader` takes a value off the left end of a text and gives the
rest, or refuses.  The four kinds of strings differ in what ends them and in what stands between, and share one loop,
`Lexeme.upTo`.
-/
namespace WatchList
namespace Toml

/-- Takes a value off the left end of a text and gives the rest, or refuses. -/
abbrev Reader (α : Type) := Text → Option (α × Text)

namespace Lexeme

/-! ## Characters -/

def isSpace (c : Char) : Bool := c == ' ' || c == '\t'

/-- A character that may stand in a comment: no control character but the tab. -/
def isPrintable (c : Char) : Bool := c == '\t' || (' ' ≤ c && c != '\x7F')

def isBare (c : Char) : Bool := c.isAlphanum || c == '-' || c == '_'

def hexValue? (c : Char) : Option Nat :=
  if c.isDigit then some (c.toNat - '0'.toNat)
  else if 'a' ≤ c ∧ c ≤ 'f' then some (c.toNat - 'a'.toNat + 10)
  else if 'A' ≤ c ∧ c ≤ 'F' then some (c.toNat - 'A'.toNat + 10)
  else none

def digitValue? (base : Nat) (c : Char) : Option Nat := (hexValue? c).filter (· < base)

def skipSpace (t : Text) : Text := t.dropWhile isSpace

def lineEnd? : Text → Option Text
  | '\n' :: t => some t
  | '\r' :: '\n' :: t => some t
  | _ => none

/-- The text behind blanks, line ends and comments; `comment` says whether a comment is open. -/
def skipVoid (comment : Bool) : Text → Text
  | [] => []
  | c :: t =>
    if c = '\n' || (c = '\r' && t.head? == some '\n') then skipVoid false t
    else if comment then if isPrintable c then skipVoid true t else c :: t
    else if isSpace c then skipVoid false t
    else if c = '#' then skipVoid true t
    else c :: t

/-- What is left of a line after a value: blanks and a comment.  The line has to end there. -/
def restOfLine (t : Text) : Option Text :=
  let t := skipSpace t
  let t := if t.head? = some '#' then t.dropWhile isPrintable else t
  if t.isEmpty then some [] else lineEnd? t

/-! ## Strings -/

/-- The pieces of a text up to what closes it, put together.  What closes the text may add a last piece. -/
def upTo (close piece : Reader Text) (t : Text) : Option (Text × Text) :=
  match close t with
  | some r => some r
  | none =>
    match piece t with
    | none => none
    | some (s, rest) =>
      if rest.length < t.length then (upTo close piece rest).map fun (u, r) => (s ++ u, r) else none
termination_by t.length

/-- The character with the code point that the digits give in base sixteen. -/
def scalar? (digits : Text) : Option Text := do
  let n ← digits.foldlM (fun n c => (hexValue? c).map (16 * n + ·)) 0
  if n.isValidChar then some [Char.ofNat n] else none

/-- What a backslash and the characters after it stand for. -/
def escape : Reader Text
  | 'b' :: t => some (['\x08'], t)
  | 't' :: t => some (['\t'], t)
  | 'n' :: t => some (['\n'], t)
  | 'f' :: t => some (['\x0C'], t)
  | 'r' :: t => some (['\r'], t)
  | '"' :: t => some (['"'], t)
  | '\\' :: t => some (['\\'], t)
  | 'u' :: t => if 4 ≤ t.length then (scalar? (t.take 4)).map (·, t.drop 4) else none
  | 'U' :: t => if 8 ≤ t.length then (scalar? (t.take 8)).map (·, t.drop 8) else none
  | _ => none

/-- A piece of a string in double quotes: an escape or a character as it is. -/
def basicPiece : Reader Text
  | '\\' :: t => escape t
  | c :: t => if isPrintable c && c != '"' then some ([c], t) else none
  | [] => none

def literalPiece : Reader Text
  | c :: t => if isPrintable c && c != '\'' then some ([c], t) else none
  | [] => none

def closeLine (q : Char) : Reader Text
  | c :: t => if c = q then some ([], t) else none
  | [] => none

/-- The end of a string over several lines: three quotes.  Up to two quotes right before them belong to the string. -/
def closeLines (q : Char) : Reader Text := fun t =>
  let n := min 5 (t.takeWhile (· == q)).length
  if 3 ≤ n then some (List.replicate (n - 3) q, t.drop n) else none

/-- The blanks and line ends at the left end of a text dropped. -/
def skipLines : Text → Text
  | [] => []
  | c :: t => if isSpace c || c = '\n' || (c = '\r' && t.head? == some '\n') then skipLines t else c :: t

/-- A piece of a string in double quotes over several lines.  A line end counts as a line feed, and a backslash at the end
of a line drops it and the blanks that follow. -/
def basicLinesPiece : Reader Text
  | [] => none
  | '\\' :: t => if (lineEnd? (skipSpace t)).isSome then some ([], skipLines t) else escape t
  | c :: t =>
    match lineEnd? (c :: t) with
    | some rest => some (['\n'], rest)
    | none => if isPrintable c then some ([c], t) else none

def literalLinesPiece : Reader Text
  | [] => none
  | c :: t =>
    match lineEnd? (c :: t) with
    | some rest => some (['\n'], rest)
    | none => if isPrintable c then some ([c], t) else none

def skipFirstLineEnd (t : Text) : Text := (lineEnd? t).getD t

def string : Reader Text
  | '"' :: '"' :: '"' :: t => upTo (closeLines '"') basicLinesPiece (skipFirstLineEnd t)
  | '"' :: t => upTo (closeLine '"') basicPiece t
  | '\'' :: '\'' :: '\'' :: t => upTo (closeLines '\'') literalLinesPiece (skipFirstLineEnd t)
  | '\'' :: t => upTo (closeLine '\'') literalPiece t
  | _ => none

/-! ## Keys -/

/-- One part of a key: bare, or a string on one line. -/
def simpleKey : Reader Text
  | '"' :: t => upTo (closeLine '"') basicPiece t
  | '\'' :: t => upTo (closeLine '\'') literalPiece t
  | t => if (t.takeWhile isBare).isEmpty then none else some (t.takeWhile isBare, t.dropWhile isBare)

/-- The greatest number of parts of a key, and the greatest depth of values. -/
def limit : Nat := 79

/-- The parts of a key, with points between them and blanks around them. -/
def keyParts (t : Text) : Option (List Text × Text) :=
  match simpleKey (skipSpace t) with
  | none => none
  | some (k, rest) =>
    match skipSpace rest with
    | '.' :: rest => if rest.length < t.length then (keyParts rest).map fun (ks, r) => (k :: ks, r) else none
    | rest => some ([k], rest)
termination_by t.length

/-- A key with at most `limit` parts. -/
def key : Reader (List Text) := fun t => (keyParts t).filter fun r => r.1.length ≤ limit

end Lexeme
end Toml
end WatchList
