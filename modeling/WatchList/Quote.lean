import WatchList.Text.Basic
/-!
# Quotations

Seven characters are quotes.  The first quote of a text opens a quotation, the next quote of any kind closes it, the one
after that opens the next, and so on.  A last quote without a partner opens nothing: it and what follows it are plain.

* `Quote.parts` splits a text into plain characters and closed quotations; everything else is read off the parts;
* `Quote.spans` are the quotations by byte offset, and `Quote.covers` asks whether an offset lies in one of them;
* `Quote.letters` are the characters of a text, each with the knowledge whether a quotation covers it;
* `Quote.withoutQuoted` puts a comma in the place of each quotation.
-/
namespace WatchList

/-- The characters that open and close quotations. -/
def quoteChars : List Char := ['"', '“', '”', '„', '‟', '«', '»']

def isQuote (c : Char) : Bool := quoteChars.contains c

/-- A character of a text, and whether a closed quotation covers it. -/
structure Letter where
  char : Char
  quoted : Bool
deriving DecidableEq, Repr

namespace Quote

/-! ## Parts -/

/-- A part of a text: a plain character, or a closed quotation with its two quotes. -/
inductive Part where
  | plain (c : Char)
  | quoted (opening : Char) (inner : Text) (closing : Char)
deriving DecidableEq, Repr

def Part.text : Part → Text
  | .plain c => [c]
  | .quoted q inner q' => q :: (inner ++ [q'])

/-- The parts of what follows an open quote with the characters since then, last first, or of a text without one. -/
def partsFrom : Option (Char × Text) → Text → List Part
  | none, [] => []
  | some (q, inner), [] => (q :: inner.reverse).map .plain
  | none, c :: t => if isQuote c then partsFrom (some (c, [])) t else .plain c :: partsFrom none t
  | some (q, inner), c :: t =>
    if isQuote c then .quoted q inner.reverse c :: partsFrom none t else partsFrom (some (q, c :: inner)) t

def parts (t : Text) : List Part := partsFrom none t

theorem text_partsFrom (pending : Option (Char × Text)) (t : Text) :
    (partsFrom pending t).flatMap Part.text =
      (match pending with | none => [] | some (q, inner) => q :: inner.reverse) ++ t := by
  induction t generalizing pending with
  | nil =>
    match pending with
    | none => rfl
    | some (q, inner) =>
      simp only [partsFrom, List.append_nil]
      generalize q :: inner.reverse = s
      induction s with
      | nil => rfl
      | cons c s ih => simp [Part.text, ih]
  | cons c t ih =>
    match pending with
    | none => by_cases h : isQuote c <;> simp [partsFrom, h, ih, Part.text]
    | some (q, inner) => by_cases h : isQuote c <;> simp [partsFrom, h, ih, Part.text]

theorem text_parts (t : Text) : (parts t).flatMap Part.text = t := by
  simpa [parts] using text_partsFrom none t

def inners (t : Text) : List Text :=
  (parts t).filterMap fun
    | .plain _ => none
    | .quoted _ inner _ => some inner

/-! ## Spans -/

/-- A closed quotation by its byte offsets: from its opening quote to behind its closing quote, and the part between
the quotes. -/
structure Span where
  start : Nat
  innerStart : Nat
  innerStop : Nat
  stop : Nat
deriving DecidableEq, Repr

/-- The quotations among the parts, which start at byte `start`. -/
def spansFrom (start : Nat) : List Part → List Span
  | [] => []
  | .plain c :: ps => spansFrom (start + c.utf8Size) ps
  | .quoted q inner q' :: ps =>
    let innerStart := start + q.utf8Size
    let innerStop := innerStart + inner.size
    let stop := innerStop + q'.utf8Size
    ⟨start, innerStart, innerStop, stop⟩ :: spansFrom stop ps

def spans (t : Text) : List Span := spansFrom 0 (parts t)

def covers (spans : List Span) (offset : Nat) : Bool :=
  spans.any fun s => s.start ≤ offset && offset < s.stop

/-! ## Letters -/

def Part.letters : Part → List Letter
  | .plain c => [⟨c, false⟩]
  | .quoted q inner q' => (q :: (inner ++ [q'])).map (⟨·, true⟩)

/-- The characters of a text, each with whether a closed quotation covers it. -/
def letters (t : Text) : List Letter := (parts t).flatMap Part.letters

theorem Part.char_letters (p : Part) : p.letters.map Letter.char = p.text := by
  cases p <;> simp [Part.letters, Part.text, Function.comp_def]

theorem char_letters (t : Text) : (letters t).map Letter.char = t := by
  rw [letters, List.map_flatMap]
  simp only [Part.char_letters]
  exact text_parts t

/-- The text with a comma for each closed quotation, so that what stands around a quotation never runs together. -/
def withoutQuoted (t : Text) : Text :=
  (parts t).flatMap fun
    | .plain c => [c]
    | .quoted _ _ _ => [',']

end Quote

end WatchList
