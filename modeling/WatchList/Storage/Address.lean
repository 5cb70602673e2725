import WatchList.Storage.Path
/-!
# Addresses of catalogs

A catalog is named by its path.  A path that begins with `file:` is more than a path: it may name a host after two
slashes, which must be this one; it may carry options after a question mark; a number sign ends it; and a percent sign
with two hexadecimal digits stands for a byte.  The options say what may be done to the catalog, whether its connections
share it, and what keeps it.

A catalog that no file keeps is gone after the run.  Even during the run it is of use only if the connections share it:
otherwise each of them finds an empty catalog of its own.
-/
namespace WatchList

/-- What may be done to a catalog. -/
inductive Access where
  | read
  | write
  /-- It may be written, and made if it is not there. -/
  | create
  /-- Everything; but it is in memory. -/
  | memory
deriving DecidableEq, Repr

namespace Access

def ofWord? (word : Path) : Option Access :=
  if word = Path.ofString "ro" then some .read
  else if word = Path.ofString "rw" then some .write
  else if word = Path.ofString "rwc" then some .create
  else if word = Path.ofString "memory" then some .memory
  else none

/-- Where the first is granted, the second may be asked for.  A catalog in memory may always be asked for. -/
def admits : Access → Access → Bool
  | _, .read => true
  | _, .memory => true
  | granted, .write => granted != .read
  | granted, .create => granted == .create || granted == .memory

end Access

/-- What the options of an address say. -/
structure Terms where
  access : Access := .create
  isShared : Bool := false
  keeper : Path := Path.ofString "unix"

/-- What keeps a catalog. -/
inductive Keeping where
  | file (access : Access)
  | passing
deriving DecidableEq, Repr

/-- The name of a catalog, with options. -/
structure Address where
  name : Path
  /-- The name stands after `file:`. -/
  isMarked : Bool := false
  options : List (Path × Path) := []

namespace Address

/-! ## Reading -/

def isBetween (first last : Char) (b : UInt8) : Bool := first.toUInt8 ≤ b && b ≤ last.toUInt8

def digit? (b : UInt8) : Option Nat := if isBetween '0' '9' b then some (b.toNat - '0'.toNat) else none

def hexDigit? (b : UInt8) : Option Nat :=
  if isBetween 'A' 'F' b then some (b.toNat - 'A'.toNat + 10)
  else if isBetween 'a' 'f' b then some (b.toNat - 'a'.toNat + 10)
  else digit? b

/-- The byte that a percent sign before these bytes stands for. -/
def escape? : Path → Option Nat
  | a :: b :: _ => do return 16 * (← hexDigit? a) + (← hexDigit? b)
  | _ => none

/-- The path with the bytes that percent signs stand for.  A zero byte ends it; a percent sign without two digits
stands for itself. -/
def decode (p : Path) : Path :=
  match p with
  | [] => []
  | b :: rest =>
    if b = '%'.toUInt8 then
      match escape? rest with
      | none => b :: decode rest
      | some 0 => []
      | some n => n.toUInt8 :: decode (rest.drop 2)
    else b :: decode rest
termination_by p.length
decreasing_by all_goals simp only [List.length_cons, List.length_drop]; omega

/-- What stands before the first byte like this, and what stands after it. -/
def cut (b : UInt8) (p : Path) : Path × Path := (p.takeWhile (· != b), (p.dropWhile (· != b)).drop 1)

/-- An option: its key stands before an equals sign, its value after it. -/
def optionOf (p : Path) : Path × Path := (decode (cut '='.toUInt8 p).1, decode (cut '='.toUInt8 p).2)

/-- What stands after the host; nothing if another host than this one is named. -/
def afterHost? (p : Path) : Option Path :=
  if [Path.slash, Path.slash].isPrefixOf p then
    let host := (cut Path.slash (p.drop 2)).1
    if host = [] || host = Path.ofString "localhost" then some (p.drop (2 + host.length)) else none
  else some p

/-- The address that a path says; nothing if it is on another host. -/
def ofPath? (p : Path) : Option Address :=
  let mark := Path.ofString "file:"
  if mark.isPrefixOf p then
    (afterHost? (cut '#'.toUInt8 (p.drop mark.length)).1).map fun rest =>
      { name := decode (cut '?'.toUInt8 rest).1
        isMarked := true
        options := ((Text.pieces (· == '&'.toUInt8) (cut '?'.toUInt8 rest).2).map optionOf).filter fun o => !o.1.isEmpty }
  else some { name := p }

/-! ## Options -/

def value? (key : String) (a : Address) : Option Path := a.options.lookup (Path.ofString key)

/-- The number that digits of a base make; zero if it is above the greatest number of an option. -/
def numberOf (base : Nat) (digits : List Nat) : Nat :=
  let n := digits.foldl (fun n d => base * n + d) 0
  if n ≤ 2147483647 then n else 0

def digitsOf (digit? : UInt8 → Option Nat) : Path → List Nat
  | [] => []
  | b :: p =>
    match digit? b with
    | some d => d :: digitsOf digit? p
    | none => []

/-- The number at the start of a value: hexadecimal after `0x`, decimal otherwise. -/
def leadingNumber (v : Path) : Nat :=
  let digits := digitsOf hexDigit? (v.drop 2)
  if v.take 2 = Path.ofString "0x" && !digits.isEmpty then numberOf 16 digits else numberOf 10 (digitsOf digit? v)

def small (b : UInt8) : UInt8 := if isBetween 'A' 'Z' b then b + 32 else b

/-- A value says yes: by a word, or by a number whose last byte is not zero. -/
def saysYes (v : Path) : Bool :=
  let v := v.map small
  if (digitsOf digit? v).isEmpty then (["on", "yes", "true"].map Path.ofString).contains v
  else leadingNumber v % 256 != 0

/-- The catalog is said to be one that nobody changes. -/
def isFixed (a : Address) : Bool := (a.value? "immutable").any saysYes

/-- The terms after one more option; nothing if the option asks for what there is not. -/
def termsAfter? (t : Terms) (o : Path × Path) : Option Terms :=
  if o.1 = Path.ofString "vfs" then some { t with keeper := o.2 }
  else if o.1 = Path.ofString "cache" then
    if o.2 = Path.ofString "shared" then some { t with isShared := true }
    else if o.2 = Path.ofString "private" then some { t with isShared := false }
    else none
  else if o.1 = Path.ofString "mode" then
    (Access.ofWord? o.2).bind fun access => if t.access.admits access then some { t with access } else none
  else some t

def terms? (a : Address) : Option Terms := a.options.foldlM termsAfter? {}

def fileKeepers : List Path := ["unix", "unix-none", "unix-dotfile", "unix-excl"].map Path.ofString

def memoryKeeper : Path := Path.ofString "memdb"

def greatestMemoryName : Nat := 1016

/-- The connections share a catalog of the memory keeper: by an option, or because its name begins like a path from
the root. -/
def isCommon (a : Address) (t : Terms) : Bool :=
  t.isShared || (1 < a.name.length && (a.name.head? == some Path.slash || a.name.head? == some '\\'.toUInt8))

/-- What keeps the catalog of an address; nothing if the catalog could not be used. -/
def keeping? (a : Address) : Option Keeping :=
  match a.terms? with
  | none => none
  | some t =>
    if a.name.isEmpty || !(memoryKeeper :: fileKeepers).contains t.keeper then none
    else if t.access = .memory || a.name = Path.ofString ":memory:" then
      if a.isMarked && t.isShared && t.access != .read then some .passing else none
    else if t.keeper = memoryKeeper then
      if a.isCommon t && t.access != .read && !a.isFixed && a.name.length ≤ greatestMemoryName then some .passing
      else none
    else some (.file t.access)

end Address

end WatchList
