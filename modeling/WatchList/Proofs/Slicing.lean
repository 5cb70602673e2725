import Mathlib.Data.List.Forall2
import WatchList.Proofs.Searching
import WatchList.Proofs.Silence
/-!
# Slices that cut no quotation

A text is read by slices of it: the clauses of an instruction, the insides of its quotations, what stands around them,
and the window of a clause.  A range of byte offsets is **sliced** when it fits the text and the quotations of the slice
are those of the text that lie in the range (`Quote.Sliced`).  It is **whole** when besides no quotation crosses its ends
(`Quote.Whole`).  The inside of a quotation is sliced, but not whole.

What stands between two places that no quotation crosses is whole (`Quote.whole_between`).  So when chunks of a
text are cut out whose ends nothing crosses, the pieces that are left are whole (`Quote.wholes_of_severed`).  To cut
out the quotations leaves the gaps between them (`Quote.wholes_gaps`), and to cut out the open hits leaves the pieces
that a pattern cuts a text into (`Pattern.wholes_cut`).
-/
namespace WatchList

open Text (size slice?)
open Quote (Span Uncrossed covers spans letters)
open Clause (plain)

namespace Quote

/-! ## Whole ranges -/

/-- The same quotation in a text with `n` more bytes before it. -/
def Span.shift (n : Nat) (s : Span) : Span := ⟨n + s.start, n + s.innerStart, n + s.innerStop, n + s.stop⟩

theorem spansFrom_add (n start : Nat) (ps : List Part) :
    spansFrom (n + start) ps = (spansFrom start ps).map (Span.shift n) := by
  induction ps generalizing start with
  | nil => rfl
  | cons p ps ih => cases p <;> simp [spansFrom, ← ih, Span.shift, Nat.add_assoc]

/-- The quotation lies in the range, its quotes included. -/
def Span.LiesIn (s : Span) (r : Range) : Prop := r.start ≤ s.start ∧ s.stop ≤ r.stop

instance (s : Span) (r : Range) : Decidable (s.LiesIn r) := inferInstanceAs (Decidable (_ ∧ _))

/-- The range of the text fits, it holds `w`, and the quotations of `w` are those of the text that lie in the range. -/
structure Sliced (t : Text) (r : Range) (w : Text) : Prop where
  fits : r.Fits t
  slice : slice? t r = some w
  spans : (spans w).map (Span.shift r.start) = (spans t).filter fun s => s.LiesIn r

/-- No quotation of the text crosses the offset: each ends there or before it, or begins there or behind it. -/
def Apart (t : Text) (n : Nat) : Prop := ∀ s ∈ spans t, s.stop ≤ n ∨ n ≤ s.start

/-- The range is sliced, and no quotation of the text crosses an end of it. -/
structure Whole (t : Text) (r : Range) (w : Text) : Prop extends Sliced t r w where
  begins : Apart t r.start
  ends : Apart t r.stop

theorem bounds_of_mem_spans {t : Text} {s : Span} (h : s ∈ spans t) : s.start < s.stop ∧ s.stop ≤ size t := by
  have hbounds := bounds_of_mem_spansFrom h
  rw [text_parts] at hbounds
  omega

theorem spans_append {x y : Text} (h : Uncrossed x y) :
    spans (x ++ y) = spans x ++ (spans y).map (Span.shift (size x)) := by
  have hshift : (spans y).map (Span.shift (size x)) = spansFrom (size x) (parts y) := (spansFrom_add _ 0 _).symm
  rw [hshift, spans, h.parts_append, spansFrom_append, text_parts, Nat.zero_add]
  rfl

/-- Between two texts the quotations of the one end, and those of the other one begin. -/
theorem apart_of_uncrossed {x y : Text} (h : Uncrossed x y) : Apart (x ++ y) (size x) := by
  intro s hs
  rw [spans_append h] at hs
  rcases List.mem_append.1 hs with hs | hs
  · exact .inl (bounds_of_mem_spans hs).2
  · obtain ⟨s, -, rfl⟩ := List.mem_map.1 hs
    exact .inr (Nat.le_add_right _ _)

/-- The quotations of a text in the middle are those that lie in its range. -/
theorem spans_between {x w y : Text} (hx : Uncrossed x (w ++ y)) (hy : Uncrossed (x ++ w) y) :
    (spans w).map (Span.shift (size x)) =
      (spans (x ++ (w ++ y))).filter fun s => s.LiesIn ⟨size x, size (x ++ w)⟩ := by
  have hspans : spans (x ++ (w ++ y)) =
      spans x ++ ((spans w).map (Span.shift (size x)) ++ (spans y).map (Span.shift (size (x ++ w)))) := by
    have hxw : Uncrossed x w := hx.imp id fun hfree c hc => hfree c (List.mem_append_left y hc)
    rw [← List.append_assoc, spans_append hy, spans_append hxw, List.append_assoc]
  have hbefore : (spans x).filter (fun s => s.LiesIn ⟨size x, size (x ++ w)⟩) = [] := by
    refine List.filter_eq_nil_iff.2 fun s hs hin => ?_
    have hle : size x ≤ s.start := (of_decide_eq_true hin).1
    have hbounds := bounds_of_mem_spans hs
    omega
  have hinside : ((spans w).map (Span.shift (size x))).filter (fun s => s.LiesIn ⟨size x, size (x ++ w)⟩) =
      (spans w).map (Span.shift (size x)) := by
    refine List.filter_eq_self.2 fun s hs => ?_
    obtain ⟨s, hmem, rfl⟩ := List.mem_map.1 hs
    have hbounds := bounds_of_mem_spans hmem
    simp only [Text.size_append, decide_eq_true_iff, Span.LiesIn, Span.shift]
    omega
  have hbehind : ((spans y).map (Span.shift (size (x ++ w)))).filter
      (fun s => s.LiesIn ⟨size x, size (x ++ w)⟩) = [] := by
    refine List.filter_eq_nil_iff.2 fun s hs hin => ?_
    obtain ⟨s, hmem, rfl⟩ := List.mem_map.1 hs
    have hle : size (x ++ w) + s.stop ≤ size (x ++ w) := (of_decide_eq_true hin).2
    have hbounds := bounds_of_mem_spans hmem
    omega
  rw [hspans, List.filter_append, List.filter_append, hbefore, hinside, hbehind, List.append_nil]
  rfl

/-- **What stands between two places that no quotation crosses is whole.** -/
theorem whole_between {x w y : Text} (hx : Uncrossed x (w ++ y)) (hy : Uncrossed (x ++ w) y) :
    Whole (x ++ (w ++ y)) ⟨size x, size (x ++ w)⟩ w := by
  have hslice : slice? (x ++ (w ++ y)) ⟨size x, size (x ++ w)⟩ = some w := Text.slice?_eq_some_iff.2 ⟨x, y, rfl, rfl⟩
  have hends : Apart (x ++ (w ++ y)) (size (x ++ w)) := by
    rw [← List.append_assoc]
    exact apart_of_uncrossed hy
  exact {
    fits := Text.isSome_slice?_iff.1 (by rw [hslice]; rfl)
    slice := hslice
    spans := spans_between hx hy
    begins := apart_of_uncrossed hx
    ends := hends }

theorem whole_to_end {x w : Text} (h : Uncrossed x w) : Whole (x ++ w) ⟨size x, size (x ++ w)⟩ w := by
  have hend : Uncrossed (x ++ w) [] := .inr fun c hc => absurd hc List.not_mem_nil
  have hwhole := whole_between (w := w) (y := []) (by rwa [List.append_nil]) hend
  rwa [List.append_nil] at hwhole

/-! ## What is left of a text -/

/-- A chunk of a text: one that is kept, or one that is cut out. -/
inductive Chunk where
  | kept (w : Text)
  | cut (w : Text)

namespace Chunk

def text : Chunk → Text
  | .kept w => w
  | .cut w => w

/-- The pieces that are left between the chunks that are cut out. -/
def pieces : List Chunk → List Text
  | [] => [[]]
  | .kept w :: cs => Pattern.onto w (pieces cs)
  | .cut _ :: cs => [] :: pieces cs

/-- The ranges of those pieces, where the first began at `start` and the chunks begin at `pos`. -/
def ranges (start pos : Nat) : List Chunk → List Range
  | [] => [⟨start, pos⟩]
  | .kept w :: cs => ranges start (pos + size w) cs
  | .cut w :: cs => ⟨start, pos⟩ :: ranges (pos + size w) (pos + size w) cs

/-- No quotation crosses the ends of the chunks that are cut out, `u` being the text before the chunks. -/
def Severed : Text → List Chunk → Prop
  | _, [] => True
  | u, .kept w :: cs => Severed (u ++ w) cs
  | u, .cut w :: cs =>
    Uncrossed u (w ++ cs.flatMap text) ∧ Uncrossed (u ++ w) (cs.flatMap text) ∧ Severed (u ++ w) cs

theorem onto_onto (x w : Text) (us : List Text) : Pattern.onto x (Pattern.onto w us) = Pattern.onto (x ++ w) us := by
  cases us <;> simp [Pattern.onto]

theorem pieces_ne_nil (cs : List Chunk) : pieces cs ≠ [] := by
  cases cs with
  | nil => simp [pieces]
  | cons c cs =>
    cases c with
    | kept w => cases h : pieces cs <;> simp [pieces, Pattern.onto, h]
    | cut w => simp [pieces]

theorem onto_pieces (cs : List Chunk) : Pattern.onto [] (pieces cs) = pieces cs := by
  obtain ⟨u, us, h⟩ := List.exists_cons_of_ne_nil (pieces_ne_nil cs)
  rw [h]
  rfl

end Chunk

open Chunk (Severed)

/-- The first piece begins behind `xs` and has begun with `ys`. -/
theorem wholes_from {xs ys : Text} {cs : List Chunk} (hcut : Severed (xs ++ ys) cs)
    (hstart : Uncrossed xs (ys ++ cs.flatMap Chunk.text)) :
    List.Forall₂ (Whole (xs ++ (ys ++ cs.flatMap Chunk.text))) (Chunk.ranges (size xs) (size (xs ++ ys)) cs)
      (Pattern.onto ys (Chunk.pieces cs)) := by
  induction cs generalizing xs ys with
  | nil =>
    rw [List.flatMap_nil, List.append_nil] at hstart ⊢
    refine .cons ?_ .nil
    rw [List.append_nil]
    exact whole_to_end hstart
  | cons c cs ih =>
    cases c with
    | kept w =>
      have hrest := @ih xs (ys ++ w) (by rwa [← List.append_assoc]) (by rwa [List.append_assoc])
      simpa [Chunk.ranges, Chunk.pieces, Chunk.onto_onto, Chunk.text, Nat.add_assoc] using hrest
    | cut w =>
      obtain ⟨hbefore, hbehind, hcut⟩ := hcut
      have hrest := @ih (xs ++ ys ++ w) [] (by rwa [List.append_nil]) hbehind
      rw [Chunk.onto_pieces] at hrest
      refine .cons ?_ ?_
      · rw [List.append_nil]
        exact whole_between hstart hbefore
      · simpa [Chunk.text, Nat.add_assoc] using hrest

/-- **The pieces are whole where the cuts cross no quotation.** -/
theorem wholes_of_severed {t : Text} {cs : List Chunk} (hcut : Severed [] cs) (ht : cs.flatMap Chunk.text = t) :
    List.Forall₂ (Whole t) (Chunk.ranges 0 0 cs) (Chunk.pieces cs) := by
  have hwhole := @wholes_from [] [] cs hcut (.inl closed_nil)
  rwa [List.nil_append, List.nil_append, ht, Chunk.onto_pieces] at hwhole

/-! ## Around the quotations and in them -/

/-- The ranges between the quotations: from `cursor` to the first one, and so on, and from the last one to `stop`. -/
def gapsFrom (stop cursor : Nat) : List Span → List Range
  | [] => [⟨cursor, stop⟩]
  | s :: ss => ⟨cursor, s.start⟩ :: gapsFrom stop s.stop ss

def gaps (t : Text) : List Range := gapsFrom (size t) 0 (spans t)

def innerRanges (t : Text) : List Range := (spans t).map fun s => ⟨s.innerStart, s.innerStop⟩

/-- A quotation is cut out. -/
def Part.chunk : Part → Chunk
  | .plain c => .kept [c]
  | .quoted q inner q' => .cut (q :: (inner ++ [q']))

theorem Part.text_chunk (p : Part) : p.chunk.text = p.text := by cases p <;> rfl

theorem flatMap_text_chunk (ps : List Part) : (ps.map Part.chunk).flatMap Chunk.text = ps.flatMap Part.text := by
  rw [List.flatMap_map]
  exact congrArg (List.flatMap · ps) (funext Part.text_chunk)

theorem gapsFrom_eq (start pos : Nat) (ps : List Part) :
    gapsFrom (pos + size (ps.flatMap Part.text)) start (spansFrom pos ps) =
      Chunk.ranges start pos (ps.map Part.chunk) := by
  induction ps generalizing start pos with
  | nil => rfl
  | cons p ps ih =>
    cases p with
    | plain c =>
      have hrest := ih start (pos + size [c])
      simpa [spansFrom, Chunk.ranges, Part.chunk, Part.text, size, Nat.add_assoc] using hrest
    | quoted q inner q' =>
      have hrest := ih (pos + size (q :: (inner ++ [q']))) (pos + size (q :: (inner ++ [q'])))
      simpa [spansFrom, gapsFrom, Chunk.ranges, Part.chunk, Part.text, size, Nat.add_assoc] using hrest

theorem joined_onto (sep w : Text) {us : List Text} (h : us ≠ []) :
    Text.joined sep (Pattern.onto w us) = w ++ Text.joined sep us := by
  obtain ⟨u, us, rfl⟩ := List.exists_cons_of_ne_nil h
  cases us <;> simp [Pattern.onto, Text.joined]

theorem joined_nil_cons (sep : Text) {us : List Text} (h : us ≠ []) :
    Text.joined sep ([] :: us) = sep ++ Text.joined sep us := by
  obtain ⟨u, us, rfl⟩ := List.exists_cons_of_ne_nil h
  rfl

theorem outside_eq_joined (ps : List Part) :
    ps.flatMap Part.outside = Text.joined [','] (Chunk.pieces (ps.map Part.chunk)) := by
  induction ps with
  | nil => rfl
  | cons p ps ih =>
    have hne := Chunk.pieces_ne_nil (ps.map Part.chunk)
    cases p with
    | plain c =>
      rw [List.map_cons, Part.chunk, Chunk.pieces, joined_onto _ _ hne, ← ih, List.flatMap_cons, Part.outside]
    | quoted q inner q' =>
      rw [List.map_cons, Part.chunk, Chunk.pieces, joined_nil_cons _ hne, ← ih, List.flatMap_cons, Part.outside]

/-- What stands before a quotation is closed, and so is what stands before the text behind it. -/
theorem severed_parts {t : Text} {qs ps : List Part} (h : parts t = qs ++ ps) :
    Severed (qs.flatMap Part.text) (ps.map Part.chunk) := by
  induction ps generalizing qs with
  | nil => exact trivial
  | cons p ps ih =>
    have hrest : Severed (qs.flatMap Part.text ++ p.text) (ps.map Part.chunk) := by
      have hnext := @ih (qs ++ [p]) (by rw [h, List.append_assoc]; rfl)
      rwa [List.flatMap_append, List.flatMap_singleton] at hnext
    cases p with
    | plain c => exact hrest
    | quoted q inner q' =>
      obtain ⟨hqs, hQ⟩ := sound_of_parts_eq h
      have hclosed := closed_flatMap hqs
      exact ⟨.inl hclosed, .inl (hclosed.append hQ.closed), hrest⟩

/-- **The gaps between quotations are whole**, and joined by commas they are the text without its quotations. -/
theorem wholes_gaps (t : Text) :
    ∃ ws, List.Forall₂ (Whole t) (gaps t) ws ∧ withoutQuoted t = Text.joined [','] ws := by
  have hsevered : Severed [] ((parts t).map Part.chunk) := severed_parts (List.nil_append _).symm
  have htext : ((parts t).map Part.chunk).flatMap Chunk.text = t := by rw [flatMap_text_chunk, text_parts]
  have hgaps := gapsFrom_eq 0 0 (parts t)
  rw [text_parts, Nat.zero_add] at hgaps
  refine ⟨_, ?_, by rw [withoutQuoted_eq_flatMap, outside_eq_joined]⟩
  rw [gaps, spans, hgaps]
  exact wholes_of_severed hsevered htext

/-- The inside of a quotation has no quote, so no quotation of the text lies in it. -/
theorem sliced_inner {x inner y : Text} (q q' : Char) (hfree : ∀ c ∈ inner, isQuote c = false) :
    Sliced (x ++ q :: (inner ++ q' :: y)) ⟨size (x ++ [q]), size (x ++ q :: inner)⟩ inner := by
  have hslice : slice? (x ++ q :: (inner ++ q' :: y)) ⟨size (x ++ [q]), size (x ++ q :: inner)⟩ = some inner :=
    Text.slice?_eq_some_iff.2 ⟨x ++ [q], q' :: y, by simp, by simp⟩
  refine ⟨Text.isSome_slice?_iff.1 (by rw [hslice]; rfl), hslice, ?_⟩
  have hnone : spans inner = [] := by
    rw [← List.length_eq_zero_iff, length_spans, countP_of_free hfree]
  rw [hnone, List.map_nil, eq_comm, List.filter_eq_nil_iff]
  intro s hs hin
  obtain ⟨hstart, hstop⟩ := of_decide_eq_true hin
  obtain ⟨x', p, inner', p', y', heq, hp, -, -, rfl⟩ := exists_of_mem_spans hs
  -- the opening quote of such a quotation would stand in the inside
  have hplace : (x ++ [q]) ++ (inner ++ q' :: y) = x' ++ p :: (inner' ++ p' :: y') := by
    rw [← heq]
    simp
  obtain ⟨w, rfl, hrest⟩ := Text.exists_between hplace hstart
  have hsize : size (w ++ [p]) ≤ size inner := by
    simp only [Text.size_append, size] at hstop ⊢
    omega
  have hsplit : (w ++ [p]) ++ (inner' ++ p' :: y') = inner ++ q' :: y := by
    rw [hrest]
    simp
  obtain ⟨z, rfl, -⟩ := Text.exists_between hsplit hsize
  have hquote := hfree p (by simp)
  rw [hp] at hquote
  cases hquote

/-- **The insides of quotations are sliced.** -/
theorem slices_inner (t : Text) : List.Forall₂ (Sliced t) (innerRanges t) (inners t) := by
  rw [inners_eq]
  suffices h : ∀ {qs ps : List Part}, parts t = qs ++ ps →
      List.Forall₂ (Sliced t) ((spansFrom (size (qs.flatMap Part.text)) ps).map fun s => ⟨s.innerStart, s.innerStop⟩)
        (ps.filterMap Part.inner?) from h (List.nil_append _).symm
  intro qs ps h
  induction ps generalizing qs with
  | nil => exact .nil
  | cons p ps ih =>
    have hnext := @ih (qs ++ [p]) (by rw [h, List.append_assoc]; rfl)
    rw [List.flatMap_append, List.flatMap_singleton] at hnext
    cases p with
    | plain c =>
      rw [List.filterMap_cons_none rfl]
      simpa [spansFrom, Part.text, size] using hnext
    | quoted q inner q' =>
      obtain ⟨-, -, -, hfree⟩ := sound_of_parts_eq h
      have ht : t = qs.flatMap Part.text ++ q :: (inner ++ q' :: ps.flatMap Part.text) := by
        rw [← text_parts t, h]
        simp [Part.text]
      refine .cons ?_ ?_
      · have hsliced := sliced_inner (x := qs.flatMap Part.text) (y := ps.flatMap Part.text) q q' hfree
        rw [← ht] at hsliced
        simpa [size, Nat.add_assoc] using hsliced
      · simpa [Part.text, size, Nat.add_assoc] using hnext

end Quote

open Quote (Whole Chunk)

namespace Pattern

/-! ## Between open hits -/

/-- An open hit is cut out, and any other token is kept. -/
def chunkOf : Token Letter → Chunk
  | .gap l => .kept [l.char]
  | .hit l ls => if l.quoted then .kept (plain (l :: ls)) else .cut (plain (l :: ls))

/-- The ranges between the occurrences that no span covers, from `start` on and up to `stop`. -/
def cutRangesFrom (ss : List Span) (stop start : Nat) : List Occurrence → List Range
  | [] => [⟨start, stop⟩]
  | m :: ms =>
    if covers ss m.start then cutRangesFrom ss stop start ms
    else ⟨start, m.start⟩ :: cutRangesFrom ss stop m.stop ms

/-- The ranges of a text between the occurrences of a pattern outside its quotations. -/
def cutRanges (p : Pattern) (t : Text) : List Range := cutRangesFrom (spans t) (size t) 0 (p.occurrences t)

theorem text_chunkOf (tok : Token Letter) : (chunkOf tok).text = plain tok.items := by
  cases tok with
  | gap l => rfl
  | hit l ls =>
    rw [chunkOf]
    split <;> rfl

theorem flatMap_text_chunkOf (ts : List (Token Letter)) :
    (ts.map chunkOf).flatMap Chunk.text = plain (ts.flatMap Token.items) := by
  induction ts with
  | nil => rfl
  | cons tok ts ih => rw [List.map_cons, List.flatMap_cons, List.flatMap_cons, ih, text_chunkOf, Clause.plain_append]

theorem cutTokens_eq_pieces (ts : List (Token Letter)) : cutTokens ts = Chunk.pieces (ts.map chunkOf) := by
  induction ts with
  | nil => rfl
  | cons tok ts ih =>
    cases tok with
    | gap l => rw [cutTokens, ih, List.map_cons, chunkOf, Chunk.pieces]
    | hit l ls => cases hl : l.quoted <;> simp [cutTokens, ih, chunkOf, Chunk.pieces, hl, plain]

/-- The occurrences outside the quotations are the open hits. -/
theorem cutRangesFrom_eq {t : Text} {as : List Letter} {ts : List (Token Letter)}
    (h : letters t = as ++ ts.flatMap Token.items) (start : Nat) :
    cutRangesFrom (spans t) (size t) start (hitsFrom (size (plain as)) (ts.map (Token.map Letter.char))) =
      Chunk.ranges start (size (plain as)) (ts.map chunkOf) := by
  induction ts generalizing as start with
  | nil =>
    have ht : t = plain as := by rw [← Clause.plain_letters t, h, List.flatMap_nil, List.append_nil]
    rw [ht]
    rfl
  | cons tok ts ih =>
    have hrest := fun start => @ih (as ++ tok.items) (by rw [h, List.flatMap_cons, List.append_assoc]) start
    rw [Clause.plain_append, Text.size_append] at hrest
    cases tok with
    | gap l => exact hrest start
    | hit l ls =>
      have hcovers : covers (spans t) (size (plain as)) = l.quoted := Quote.covers_spans h
      rw [List.map_cons, List.map_cons, Token.map, hitsFrom, cutRangesFrom, chunkOf, hcovers]
      cases hl : l.quoted with
      | true => exact hrest start
      | false => exact congrArg (_ :: ·) (hrest _)

/-- No quotation crosses the ends of an open hit. -/
theorem severed_tokens {t : Text} {as : List Letter} {ts : List (Token Letter)}
    (h : letters t = as ++ ts.flatMap Token.items)
    (hfree : ∀ l ls, Token.hit l ls ∈ ts → ∀ c ∈ plain (l :: ls), isQuote c = false) :
    Chunk.Severed (plain as) (ts.map chunkOf) := by
  induction ts generalizing as with
  | nil => exact trivial
  | cons tok ts ih =>
    have hrest : Chunk.Severed (plain as ++ plain tok.items) (ts.map chunkOf) := by
      rw [← Clause.plain_append]
      exact ih (by rw [h, List.flatMap_cons, List.append_assoc])
        fun l ls hmem => hfree l ls (List.mem_cons_of_mem tok hmem)
    cases tok with
    | gap l => exact hrest
    | hit l ls =>
      rw [List.map_cons, chunkOf]
      cases hl : l.quoted with
      | true => exact hrest
      | false =>
        have hopen : Uncrossed (plain as) (plain (l :: ls) ++ plain (ts.flatMap Token.items)) := by
          rw [← Clause.plain_append]
          exact Quote.uncrossed_of_open h hl
        rw [if_neg Bool.false_ne_true, Chunk.Severed, flatMap_text_chunkOf]
        exact ⟨hopen, (hopen.behind (hfree l ls List.mem_cons_self)).2, hrest⟩

/-- **The pieces between open hits are whole.** -/
theorem wholes_cut {p : Pattern} (hp : p.StopsAtQuotes) (t : Text) :
    List.Forall₂ (Whole t) (p.cutRanges t) (p.cut t) := by
  generalize hts : p.scan Letter.char none (letters t) = ts
  have hitems : letters t = [] ++ ts.flatMap Token.items := by rw [List.nil_append, ← hts, items_scan]
  have htokens : p.tokens t = ts.map (Token.map Letter.char) := by
    rw [← hts, tokens]
    exact (congrArg (p.scan id none) (Quote.char_letters t).symm).trans (scan_map Letter.char id none (letters t))
  have hsevered : Chunk.Severed [] (ts.map chunkOf) :=
    severed_tokens hitems fun l ls hmem => free_of_hit_mem hp (hts ▸ hmem)
  have htext : (ts.map chunkOf).flatMap Chunk.text = t := by
    rw [flatMap_text_chunkOf, ← List.nil_append (ts.flatMap Token.items), ← hitems, Clause.plain_letters]
  rw [cut, hts, cutTokens_eq_pieces, cutRanges, occurrences, htokens]
  have hranges := cutRangesFrom_eq hitems 0
  rw [show size (plain []) = 0 from rfl] at hranges
  rw [hranges]
  exact Quote.wholes_of_severed hsevered htext

end Pattern

end WatchList
