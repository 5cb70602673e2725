import WatchList.Text.Basic
/-!
# Writing TOML strings

A string is written in the plainest form that needs no escapes; the forms are tried in this order.

1. double quotes, if nothing in the text needs an escape there;
2. single quotes, on one line;
3. three double quotes;
4. three single quotes;
5. double quotes with escapes, three of them if the text has several lines.

A form over several lines starts with a line end when the text has one, which the reader drops.
-/
namespace WatchList
namespace Toml
namespace Writer

/-- A character that can only be written as an escape: a control character other than tab and line feed. -/
def needsEscape (c : Char) : Bool := (c < ' ' && c != '\t' && c != '\n') || c == '\x7F'

/-- The longest run of `q` in a text, `run` of them being right before it. -/
def longestRun (q : Char) (run : Nat) : Text → Nat
  | [] => run
  | c :: t => if c = q then longestRun q (run + 1) t else max run (longestRun q 0 t)

def hex4 (c : Char) : Text :=
  let ds := (Nat.toDigits 16 c.toNat).map Char.toUpper
  List.replicate (4 - ds.length) '0' ++ ds

/-- The escape of a character in double quotes, if it needs one; line feeds need none over several lines. -/
def escape? (severalLines : Bool) (c : Char) : Option Text :=
  if c = '\x08' then some ['\\', 'b']
  else if c = '\t' then some ['\\', 't']
  else if c = '\n' then if severalLines then none else some ['\\', 'n']
  else if c = '\x0C' then some ['\\', 'f']
  else if c = '\r' then some ['\\', 'r']
  else if c = '\\' then some ['\\', '\\']
  else if needsEscape c then some ('\\' :: 'u' :: hex4 c)
  else none

/-- The text between double quotes: `free` double quotes may stand in a row as they are, and `run` of them stand right
before the text. -/
def escaped (severalLines : Bool) (free run : Nat) : Text → Text
  | [] => []
  | c :: t =>
    if c = '"' then
      if run < free then '"' :: escaped severalLines free (run + 1) t
      else '\\' :: '"' :: escaped severalLines free 0 t
    else match escape? severalLines c with
      | some e => e ++ escaped severalLines free 0 t
      | none => c :: escaped severalLines free 0 t

def firstLineEnd (t : Text) : Text := if t.contains '\n' then ['\n'] else []

def basic (t : Text) : Text := "\"".toList ++ escaped false 0 0 t ++ "\"".toList

def basicLines (t : Text) : Text :=
  "\"\"\"".toList ++ firstLineEnd t ++ escaped true 2 0 t ++ "\"\"\"".toList

def literal (t : Text) : Text := "'".toList ++ t ++ "'".toList

def literalLines (t : Text) : Text := "'''".toList ++ firstLineEnd t ++ t ++ "'''".toList

def string (t : Text) : Text :=
  let escapes := t.any needsEscape
  let backslash := t.contains '\\'
  let severalLines := t.contains '\n'
  let doubles := longestRun '"' 0 t
  let singles := longestRun '\'' 0 t
  if !escapes && !backslash && doubles = 0 && !severalLines then basic t
  else if !escapes && singles = 0 && !severalLines then literal t
  else if !escapes && !backslash && doubles ≤ 2 then basicLines t
  else if !escapes && singles ≤ 2 then literalLines t
  else if severalLines then basicLines t
  else basic t

def entry (key value : Text) : Text := key ++ " = ".toList ++ value ++ "\n".toList

end Writer
end Toml
end WatchList
