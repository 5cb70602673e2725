import WatchList.Toml.Lexeme
import WatchList.Toml.Value
/-!
# TOML scalars

Readers for numbers, truth values, dates and times.  A number with a fraction or an exponent has to stay below the
greatest double, and a date has to exist; apart from that only their texts are kept, since no setting is made of them.
-/
namespace WatchList
namespace Toml
namespace Scalar

open Lexeme

/-! ## Digits -/

/-- The digits at the left end of a text and what follows them.  A low line may stand between two digits. -/
def digitRun (base : Nat) : Text → Text × Text
  | '_' :: c :: t =>
    if (digitValue? base c).isSome then (c :: (digitRun base t).1, (digitRun base t).2) else ([], '_' :: c :: t)
  | c :: t => if (digitValue? base c).isSome then (c :: (digitRun base t).1, (digitRun base t).2) else ([], c :: t)
  | [] => ([], [])

def digits (base : Nat) : Reader Text
  | [] => none
  | c :: t =>
    if (digitValue? base c).isSome then some (c :: (digitRun base t).1, (digitRun base t).2) else none

def valueOf (base : Nat) (ds : Text) : Nat := ds.foldl (fun n c => base * n + (digitValue? base c).getD 0) 0

/-- A sign, if there is one: whether it is a minus. -/
def sign : Text → Bool × Text
  | '-' :: t => (true, t)
  | '+' :: t => (false, t)
  | t => (false, t)

def decimal : Reader Text
  | '0' :: t => some (['0'], t)
  | t => digits 10 t

/-! ## Integers -/

/-- The integer, if it fits into 64 bits with a sign. -/
def fitting (n : Int) : Option Value := if -9223372036854775808 ≤ n ∧ n ≤ 9223372036854775807 then some (.integer n) else none

def based (base : Nat) (t : Text) : Option (Value × Text) := do
  let (ds, rest) ← digits base t
  return (← fitting (valueOf base ds), rest)

/-- An integer: in base sixteen, eight or two after its mark, or decimal with or without a sign. -/
def integer : Reader Value
  | '0' :: 'x' :: t => based 16 t
  | '0' :: 'o' :: t => based 8 t
  | '0' :: 'b' :: t => based 2 t
  | t => do
    let (negative, t) := sign t
    let (ds, rest) ← decimal t
    let n : Int := valueOf 10 ds
    return (← fitting (if negative then -n else n), rest)

/-! ## Numbers with a fraction -/

/-- The least number that is not below the greatest double by rounding. -/
def overflow : Nat := Nat.pow 2 1024 - Nat.pow 2 970

/-- The number `m * 10 ^ e`, written with `k` digits, is read as a finite double. -/
def isFinite (m k : Nat) (e : Int) : Bool :=
  if m = 0 || e + k < 300 then true
  else if 320 < e + k then false
  else if 0 ≤ e then m * Nat.pow 10 e.toNat < overflow
  else m < overflow * Nat.pow 10 (-e).toNat

def fraction : Reader Text
  | '.' :: t => digits 10 t
  | _ => none

def exponent : Reader Int
  | c :: t =>
    if c = 'e' || c = 'E' then
      let (negative, t) := sign t
      (digits 10 t).map fun (ds, rest) =>
        (if negative then -(valueOf 10 ds : Int) else valueOf 10 ds, rest)
    else none
  | [] => none

/-- The text that was read when `rest` is left of `t`. -/
def taken (t rest : Text) : Text := t.take (t.length - rest.length)

/-- A decimal number with a fraction, an exponent or both. -/
def float (t : Text) : Option (Value × Text) := do
  let (negative, t') := sign t
  let (whole, t₁) ← decimal t'
  let (part, t₂) := (fraction t₁).getD ([], t₁)
  let (e, rest) := (exponent t₂).getD (0, t₂)
  if rest.length = t₁.length then none
  else
    let ds := (whole ++ part).dropWhile (· == '0')
    if negative || isFinite (valueOf 10 ds) ds.length (e - part.length) then some (.float (taken t rest), rest)
    else none

def special (t : Text) : Option (Value × Text) :=
  match (sign t).2 with
  | 'i' :: 'n' :: 'f' :: rest => some (.float (taken t rest), rest)
  | 'n' :: 'a' :: 'n' :: rest => some (.float (taken t rest), rest)
  | _ => none

/-! ## Dates and times -/

def exactly (n : Nat) (t : Text) : Option (Nat × Text) :=
  let ds := t.take n
  if ds.length = n && ds.all Char.isDigit then some (valueOf 10 ds, t.drop n) else none

def expect (c : Char) : Text → Option Text
  | c' :: t => if c' = c then some t else none
  | [] => none

def daysIn (year month : Nat) : Nat :=
  if month = 2 then if year % 4 = 0 && (year % 100 != 0 || year % 400 = 0) then 29 else 28
  else if [4, 6, 9, 11].contains month then 30
  else 31

/-- A date that exists: the text behind it. -/
def date (t : Text) : Option Text := do
  let (year, t) ← exactly 4 t
  let (month, t) ← exactly 2 (← expect '-' t)
  let (day, t) ← exactly 2 (← expect '-' t)
  if 1 ≤ month && month ≤ 12 && 1 ≤ day && day ≤ daysIn year month then some t else none

/-- A time of day: the text behind it.  A minute may have a leap second. -/
def time (t : Text) : Option Text := do
  let (hour, t) ← exactly 2 t
  let (minute, t) ← exactly 2 (← expect ':' t)
  let (second, t) ← exactly 2 (← expect ':' t)
  let rest := match t with
    | '.' :: t' => if (t'.takeWhile Char.isDigit).isEmpty then t else t'.dropWhile Char.isDigit
    | _ => t
  if hour ≤ 23 && minute ≤ 59 && second ≤ 60 then some rest else none

/-- The distance from universal time, if there is one: the text behind it. -/
def offset (t : Text) : Option Text :=
  match t with
  | c :: t' =>
    if c = 'Z' || c = 'z' then some t'
    else if c = '+' || c = '-' then do
      let (hour, t') ← exactly 2 t'
      let (minute, t') ← exactly 2 (← expect ':' t')
      if hour ≤ 23 && minute ≤ 59 then some t' else none
    else some t
  | [] => some t

/-- The time of day after a date, if there is one: the text behind it. -/
def timeAfterDate (t : Text) : Option Text :=
  match t with
  | c :: t' =>
    if c = 'T' || c = 't' || c = ' ' then
      match time t' with
      | some t => offset t
      | none => some t
    else some t
  | [] => some t

def datetime (t : Text) : Option (Value × Text) :=
  let rest? := match date t with
    | some t => timeAfterDate t
    | none => time t
  rest?.map fun rest => (.datetime (taken t rest), rest)

/-! ## Scalars -/

def boolean : Reader Value
  | 't' :: 'r' :: 'u' :: 'e' :: t => some (.boolean true, t)
  | 'f' :: 'a' :: 'l' :: 's' :: 'e' :: t => some (.boolean false, t)
  | _ => none

def scalar (t : Text) : Option (Value × Text) :=
  ((string t).map fun (s, rest) => (Value.string s, rest))
    <|> boolean t <|> special t <|> datetime t <|> float t <|> integer t

end Scalar
end Toml
end WatchList
