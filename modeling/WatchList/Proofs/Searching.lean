import WatchList.Proofs.Pairing
import WatchList.Proofs.Windows
/-!
# Searching by offsets

An open hit can be searched for by byte offsets: the first place at or behind an offset where the pattern fits is looked
for, and as long as a quotation covers that place the search goes on behind the fit (`Pattern.firstOpen`).

The search gives what it should: of all fits at or behind the offset that begin outside every quotation, the first one
(`Pattern.first_firstOpen`).  That a fit in a quotation is skipped whole hides no other, since the fit has no quote in
it and so ends before the quotation does (`Pattern.Fits.stop_le_of_covered`).  What `Pattern.find` finds among the
letters of the text is the first open fit as well (`Pattern.first_find`), and so the two searches give the same.
-/
namespace WatchList

open Text (size IsBoundary)
open Quote (covers spans letters Span)
open Clause (plain)

/-- The occurrence is the first one with the property, if any occurrence has it. -/
def First (P : Occurrence → Prop) : Option Occurrence → Prop
  | none => ∀ o, ¬ P o
  | some m => P m ∧ ∀ o, P o → m.start ≤ o.start

namespace First

variable {P Q : Occurrence → Prop} {a b : Option Occurrence}

theorem congr (h : ∀ o, P o ↔ Q o) (ha : First P a) : First Q a := by
  obtain rfl : P = Q := funext fun o => propext (h o)
  exact ha

/-- The first one up to some offset or else the first one behind it. -/
theorem or {n : Nat} (ha : First (fun o => P o ∧ o.start ≤ n) a) (hb : First (fun o => P o ∧ n < o.start) b) :
    First P (a.or b) := by
  cases a with
  | some m =>
    obtain ⟨⟨hm, hle⟩, hleast⟩ := ha
    refine ⟨hm, fun o ho => ?_⟩
    by_cases hn : o.start ≤ n
    · exact hleast o ⟨ho, hn⟩
    · omega
  | none =>
    refine congr (fun o => ⟨And.left, fun ho => ⟨ho, ?_⟩⟩) hb
    exact Nat.lt_of_not_le fun hn => ha o ⟨ho, hn⟩

/-- Where no two occurrences begin at one place there is one first one. -/
theorem unique (h : ∀ o o', P o → P o' → o.start = o'.start → o = o') (ha : First P a) (hb : First P b) : a = b := by
  cases a with
  | none =>
    cases b with
    | none => rfl
    | some m => exact absurd hb.1 (ha m)
  | some m =>
    cases b with
    | none => exact absurd ha.1 (hb m)
    | some m' =>
      have hstart := Nat.le_antisymm (ha.2 m' hb.1) (hb.2 m ha.1)
      rw [h m m' ha.1 hb.1 hstart]

end First

namespace Quote

/-! ## Letters that a quotation covers -/

/-- Quotations that begin behind an offset or end before it do not cover it. -/
theorem covers_eq_false {ss : List Span} {n : Nat} (h : ∀ s ∈ ss, n < s.start ∨ s.stop ≤ n) : covers ss n = false := by
  rw [Bool.eq_false_iff, Ne, covers_iff]
  rintro ⟨s, hs, hle, hlt⟩
  have hout := h s hs
  omega

theorem covers_append (ss ss' : List Span) (n : Nat) : covers (ss ++ ss') n = (covers ss n || covers ss' n) :=
  List.any_append

theorem size_plain_lt {p : Part} {as bs : List Letter} {l : Letter} (h : p.letters = as ++ l :: bs) :
    size (plain as) < size p.text := by
  have hpos := Text.size_cons_pos l.char (bs.map Letter.char)
  rw [← Part.char_letters, h, List.map_append, List.map_cons, Text.size_append, plain]
  omega

/-- A letter of one part. -/
theorem covers_part {p : Part} {start : Nat} {as bs : List Letter} {l : Letter} (h : p.letters = as ++ l :: bs) :
    covers (spansFrom start [p]) (start + size (plain as)) = l.quoted := by
  have hsize := size_plain_lt h
  have hmem : l ∈ p.letters := by
    rw [h]
    simp
  cases p with
  | plain c =>
    obtain rfl := List.mem_singleton.1 hmem
    rfl
  | quoted q inner q' =>
    rw [quoted_of_mem_letters hmem, covers_iff]
    refine ⟨_, List.mem_singleton_self _, Nat.le_add_right _ _, ?_⟩
    simp only [Part.text, Text.size_append, size] at hsize ⊢
    omega

/-- **A letter is quoted where a quotation covers it.** -/
theorem covers_spansFrom {ps : List Part} {start : Nat} {as bs : List Letter} {l : Letter}
    (h : ps.flatMap Part.letters = as ++ l :: bs) :
    covers (spansFrom start ps) (start + size (plain as)) = l.quoted := by
  induction ps generalizing start as with
  | nil => exact absurd h.symm (List.append_ne_nil_of_right_ne_nil as (List.cons_ne_nil l bs))
  | cons p ps ih =>
    have hbehind : ∀ rest, ps.flatMap Part.letters = rest ++ l :: bs →
        covers (spansFrom start (p :: ps)) (start + size (plain (p.letters ++ rest))) = l.quoted := by
      intro rest hrest
      have hp : size (plain p.letters) = size p.text := congrArg size (Part.char_letters p)
      have hfirst : covers (spansFrom start [p]) (start + (size p.text + size (plain rest))) = false := by
        refine covers_eq_false fun s hs => .inr ?_
        have hbounds := (bounds_of_mem_spansFrom hs).2.2
        simp only [List.flatMap_cons, List.flatMap_nil, List.append_nil] at hbounds
        omega
      rw [Clause.plain_append, Text.size_append, hp, ← List.singleton_append, spansFrom_append, covers_append, hfirst,
        Bool.false_or, ← Nat.add_assoc]
      simpa using ih hrest
    rw [List.flatMap_cons] at h
    rcases List.append_eq_append_iff.1 h with ⟨rest, rfl, hrest⟩ | ⟨rest, hrest, hbs⟩
    · exact hbehind rest hrest
    · cases rest with
      | nil =>
        obtain rfl : as = p.letters := by simpa using hrest.symm
        simpa using hbehind [] hbs.symm
      | cons l' rest =>
        obtain ⟨rfl, -⟩ := List.cons.inj hbs
        have hlast : covers (spansFrom (start + size ([p].flatMap Part.text)) ps)
            (start + size (plain as)) = false := by
          refine covers_eq_false fun s hs => .inl ?_
          have hbounds := (bounds_of_mem_spansFrom hs).1
          have hsize := size_plain_lt hrest
          simp only [List.flatMap_cons, List.flatMap_nil, List.append_nil] at hbounds
          omega
        rw [← List.singleton_append, spansFrom_append, covers_append, covers_part hrest, hlast, Bool.or_false]

theorem covers_spans {t : Text} {as bs : List Letter} {l : Letter} (h : letters t = as ++ l :: bs) :
    covers (spans t) (size (plain as)) = l.quoted := by
  have hcovers : covers (spans t) (0 + size (plain as)) = l.quoted := covers_spansFrom h
  rwa [Nat.zero_add] at hcovers

end Quote

namespace Pattern

/-! ## Fits -/

/-- What the pattern takes at the place with offset `start`, `before` and `t` being what stands around it. -/
def fit (p : Pattern) (start : Nat) (before : Option Char) (t : Text) : Option Occurrence :=
  (p before t).map fun n => ⟨start, start + size (t.take n), t.take n⟩

/-- The pattern fits the text there. -/
def Fits (p : Pattern) (t : Text) (o : Occurrence) : Prop := ∃ u v, t = u ++ v ∧ p.fit (size u) u.getLast? v = some o

/-- The pattern never takes nothing. -/
def Positive (p : Pattern) : Prop := ∀ before t n, p before t = some n → 0 < n

theorem reach_pos {w t : Text} (hw : w ≠ []) {n : Nat} (h : reach w t = some n) : 0 < n := by
  cases w with
  | nil => exact absurd rfl hw
  | cons a w =>
    unfold reach at h
    split at h
    · split at h
      · cases h
      · obtain ⟨k, -, rfl⟩ := Option.map_eq_some_iff.1 h
        omega
    · split at h
      · cases h
      · split at h
        · obtain ⟨k, -, rfl⟩ := Option.map_eq_some_iff.1 h
          omega
        · cases h

/-- What a search relies on. -/
structure Searchable (p : Pattern) : Prop extends p.StopsAtQuotes where
  positive : p.Positive

theorem word_positive {table : List Text} (h : [] ∉ table) : (word table).Positive := by
  intro before t n hn
  unfold word at hn
  split at hn
  · cases hn
  · obtain ⟨w, hmem, hw⟩ := List.exists_of_findSome?_eq_some hn
    exact reach_pos (ne_of_mem_of_not_mem hmem h) (Option.eq_some_of_filter_eq_some hw)

theorem word_searchable {table : List Text} (h : table ∈ Vocabulary.tables) : (word table).Searchable :=
  ⟨Vocabulary.word_stops h, word_positive (Vocabulary.quoteFree_tables table h).1⟩

section
variable {p : Pattern} {t u v : Text} {m o : Occurrence}

theorem fit_eq_some_iff (hw : p.Within) {start : Nat} {before : Option Char} : p.fit start before v = some o ↔
    ∃ w y, v = w ++ y ∧ p before v = some w.length ∧ o = ⟨start, start + size w, w⟩ := by
  rw [fit, Option.map_eq_some_iff]
  constructor
  · rintro ⟨n, hn, rfl⟩
    have hlen : (v.take n).length = n := List.length_take_of_le (hw before v n hn)
    exact ⟨v.take n, v.drop n, (List.take_append_drop n v).symm, by rw [hlen, hn], rfl⟩
  · rintro ⟨w, y, rfl, hn, rfl⟩
    exact ⟨w.length, hn, by rw [List.take_left]⟩

theorem Fits.exists_between (hw : p.Within) (h : p.Fits t o) : ∃ x w y, t = x ++ (w ++ y) ∧
    p x.getLast? (w ++ y) = some w.length ∧ o = ⟨size x, size (x ++ w), w⟩ := by
  obtain ⟨x, v, rfl, hfit⟩ := h
  obtain ⟨w, y, rfl, hn, rfl⟩ := (fit_eq_some_iff hw).1 hfit
  exact ⟨x, w, y, rfl, hn, by rw [Text.size_append]⟩

theorem Fits.starts (hw : p.Within) (h : p.Fits t o) : IsBoundary t o.start := by
  obtain ⟨x, w, y, rfl, -, rfl⟩ := h.exists_between hw
  exact Text.isBoundary_append x (w ++ y)

theorem Fits.stops (hw : p.Within) (h : p.Fits t o) : IsBoundary t o.stop := by
  obtain ⟨x, w, y, rfl, -, rfl⟩ := h.exists_between hw
  rw [← List.append_assoc]
  exact Text.isBoundary_append (x ++ w) y

theorem Fits.start_lt_stop (hw : p.Within) (hp : p.Positive) (h : p.Fits t o) : o.start < o.stop := by
  obtain ⟨x, w, y, rfl, hn, rfl⟩ := h.exists_between hw
  have hne : w ≠ [] := List.ne_nil_of_length_pos (hp _ _ _ hn)
  have hsize : size w ≠ 0 := fun h => hne (Text.size_eq_zero_iff.1 h)
  simp only [Text.size_append]
  omega

/-- What fits at a place. -/
theorem fits_at_iff (hw : p.Within) : p.Fits (u ++ v) o ∧ o.start = size u ↔ p.fit (size u) u.getLast? v = some o := by
  constructor
  · rintro ⟨⟨x, y, h, hfit⟩, hstart⟩
    obtain ⟨w, y', -, -, rfl⟩ := (fit_eq_some_iff hw).1 hfit
    obtain ⟨rfl, rfl⟩ := Text.eq_of_size h hstart.symm
    exact hfit
  · intro hfit
    obtain ⟨w, y, -, -, rfl⟩ := (fit_eq_some_iff hw).1 hfit
    exact ⟨⟨u, v, rfl, hfit⟩, rfl⟩

/-- At one place there is one fit. -/
theorem Fits.eq_of_start (hw : p.Within) (hm : p.Fits t m) (ho : p.Fits t o) (h : m.start = o.start) : m = o := by
  obtain ⟨u, v, rfl, hfit⟩ := hm
  have hstart := (fits_at_iff hw).2 hfit
  exact Option.some.inj (hfit.symm.trans ((fits_at_iff hw).1 ⟨ho, h.symm.trans hstart.2⟩))

end

/-! ## The first fit behind an offset -/

/-- The first fit at or behind byte `pos` in a text that stands at byte `start`, behind the character `before`. -/
def seek (p : Pattern) (pos start : Nat) (before : Option Char) : Text → Option Occurrence
  | [] => if pos ≤ start then p.fit start before [] else none
  | c :: t =>
    (if pos ≤ start then p.fit start before (c :: t) else none).or (p.seek pos (start + c.utf8Size) (some c) t)

/-- The first fit in a text at or behind a byte offset. -/
def findAt (p : Pattern) (t : Text) (pos : Nat) : Option Occurrence := p.seek pos 0 none t

section
variable {p : Pattern} (hw : p.Within)
include hw

theorem first_fit (pos : Nat) (u v : Text) :
    First (fun o => (p.Fits (u ++ v) o ∧ pos ≤ o.start ∧ size u ≤ o.start) ∧ o.start ≤ size u)
      (if pos ≤ size u then p.fit (size u) u.getLast? v else none) := by
  have hat : ∀ o, p.Fits (u ++ v) o ∧ size u ≤ o.start → o.start ≤ size u → p.fit (size u) u.getLast? v = some o :=
    fun o ho hle => (fits_at_iff hw).1 ⟨ho.1, Nat.le_antisymm hle ho.2⟩
  split
  · rename_i hpos
    cases hfit : p.fit (size u) u.getLast? v with
    | none =>
      rintro o ⟨⟨ho, -, hge⟩, hle⟩
      rw [hat o ⟨ho, hge⟩ hle] at hfit
      cases hfit
    | some m =>
      obtain ⟨hm, hstart⟩ := (fits_at_iff hw).2 hfit
      refine ⟨⟨⟨hm, ?_, ?_⟩, ?_⟩, fun o ho => ?_⟩ <;> omega
  · rintro o ⟨⟨-, hpos, hge⟩, hle⟩
    omega

theorem first_seek (pos : Nat) (u v : Text) :
    First (fun o => p.Fits (u ++ v) o ∧ pos ≤ o.start ∧ size u ≤ o.start) (p.seek pos (size u) u.getLast? v) := by
  induction v generalizing u with
  | nil =>
    refine First.congr (fun o => ⟨And.left, fun ho => ⟨ho, ?_⟩⟩) (first_fit hw pos u [])
    simpa using (ho.1.starts hw).le
  | cons c v ih =>
    refine First.or (first_fit hw pos u (c :: v)) ?_
    have hrest := ih (u ++ [c])
    rw [List.append_assoc, Text.size_append, List.getLast?_concat] at hrest
    refine First.congr (fun o => ?_) hrest
    have hpos := c.utf8Size_pos
    constructor
    · rintro ⟨ho, hpos, hge⟩
      refine ⟨⟨ho, hpos, ?_⟩, ?_⟩ <;> simp only [Text.size] at hge <;> omega
    · rintro ⟨⟨ho, hpos, hge⟩, hlt⟩
      exact ⟨ho, hpos, Text.IsBoundary.next_le (ho.starts hw) hlt⟩

/-- **The first fit is the first of all fits.** -/
theorem first_findAt (t : Text) (pos : Nat) : First (fun o => p.Fits t o ∧ pos ≤ o.start) (p.findAt t pos) :=
  First.congr (fun _ => ⟨fun ⟨ho, hpos, _⟩ => ⟨ho, hpos⟩, fun ⟨ho, hpos⟩ => ⟨ho, hpos, Nat.zero_le _⟩⟩)
    (first_seek hw pos [] t)

end

/-! ## The first open fit behind an offset -/

/-- The first fit at or behind byte `pos` that none of the spans covers: one that is covered is skipped. -/
def firstOpen (p : Pattern) (t : Text) (ss : List Span) (pos : Nat) : Option Occurrence :=
  if pos ≤ size t then
    match p.findAt t pos with
    | none => none
    | some m => if covers ss m.start then p.firstOpen t ss (max m.stop (pos + 1)) else some m
  else none
termination_by size t + 1 - pos

/-- The offsets at which that search stands, one after the other. -/
def offsets (p : Pattern) (t : Text) (ss : List Span) (pos : Nat) : List Nat :=
  if pos ≤ size t then
    match p.findAt t pos with
    | none => [pos]
    | some m => if covers ss m.start then pos :: p.offsets t ss (max m.stop (pos + 1)) else [pos]
  else [pos]
termination_by size t + 1 - pos

theorem offsets_ne_nil (p : Pattern) (t : Text) (ss : List Span) (pos : Nat) : p.offsets t ss pos ≠ [] := by
  fun_cases offsets p t ss pos <;> simp

theorem firstOpen_eq_last {p : Pattern} (hw : p.Within) (t : Text) (ss : List Span) (pos : Nat) :
    p.firstOpen t ss pos = (p.offsets t ss pos).getLast?.bind (p.findAt t) := by
  fun_induction firstOpen p t ss pos with
  | case1 pos hle hnone =>
    rw [offsets, if_pos hle, hnone]
    simp [hnone]
  | case2 pos hle m hsome hcovered ih =>
    rw [offsets, if_pos hle, hsome]
    simp only [hcovered, if_true]
    rw [List.getLast?_cons_of_ne_nil (offsets_ne_nil p t ss _), ih]
  | case3 pos hle m hsome hopen =>
    rw [offsets, if_pos hle, hsome]
    simp [hopen, hsome]
  | case4 pos hlt =>
    rw [offsets, if_neg hlt]
    have hfirst := first_findAt hw t pos
    cases hfound : p.findAt t pos with
    | none => simp [hfound]
    | some m =>
      rw [hfound] at hfirst
      have hle := (hfirst.1.1.starts hw).le
      have hge := hfirst.1.2
      omega

/-- The pattern fits there, at or behind the offset and outside every quotation. -/
def Open (p : Pattern) (t : Text) (start : Nat) (o : Occurrence) : Prop :=
  p.Fits t o ∧ start ≤ o.start ∧ covers (spans t) o.start = false

section
variable {p : Pattern} (hs : p.Searchable)
include hs

theorem Fits.free {t : Text} {m : Occurrence} (h : p.Fits t m) : ∀ c ∈ m.text, isQuote c = false := by
  obtain ⟨x, w, y, rfl, hn, rfl⟩ := h.exists_between hs.within
  have hfree := hs.free hn
  rwa [List.take_left] at hfree

/-- **A fit that begins in a quotation ends in it**, so what is outside every quotation lies behind it. -/
theorem Fits.stop_le_of_covered {t : Text} {m : Occurrence} (hm : p.Fits t m)
    (hcovered : covers (spans t) m.start = true) {n : Nat} (hn : covers (spans t) n = false) (h : m.start ≤ n) :
    m.stop ≤ n := by
  obtain ⟨s, hspan, hle, hlt⟩ := Quote.covers_iff.1 hcovered
  have hbehind : s.stop ≤ n := Nat.le_of_not_lt fun hlt' => by
    rw [Quote.covers_iff.2 ⟨s, hspan, Nat.le_trans hle h, hlt'⟩] at hn
    cases hn
  refine Nat.le_trans (Nat.le_of_not_lt fun hcross => ?_) hbehind
  -- if the fit went on behind the quotation, it would hold the closing quote
  have hfree := hm.free hs
  obtain ⟨x, q, inner, q', y, rfl, -, hq', -, rfl⟩ := Quote.exists_of_mem_spans hspan
  obtain ⟨u, w, v, ht, -, rfl⟩ := hm.exists_between hs.within
  have htext : u ++ (w ++ v) = (x ++ q :: (inner ++ [q'])) ++ y := by
    rw [← ht]
    simp
  obtain ⟨a, ha, hrest⟩ := Text.exists_between htext (Nat.le_of_lt hlt)
  have hcross : size a < size w := by
    simp only [ha, Text.size_append] at hcross
    omega
  obtain ⟨b, rfl, -⟩ := Text.exists_between hrest.symm (Nat.le_of_lt hcross)
  have hclosing : q' ∈ a := by
    rcases List.eq_nil_or_concat a with rfl | ⟨a, c, rfl⟩
    · simp only [ha, List.append_nil] at hlt
      exact absurd hlt (Nat.lt_irrefl _)
    · have hlast : (x ++ q :: inner) ++ [q'] = (u ++ a) ++ [c] := by simpa using ha
      obtain ⟨-, hc⟩ := List.append_inj' hlast rfl
      rw [List.singleton_inj.1 hc]
      simp
  have hfree := hfree q' (List.mem_append_left b hclosing)
  rw [hq'] at hfree
  cases hfree

/-- Behind a covered fit the search goes on at the end of that fit, and misses no open one. -/
theorem open_behind_iff {t : Text} {pos : Nat} {m : Occurrence}
    (hfirst : First (fun o => p.Fits t o ∧ pos ≤ o.start) (some m)) (hcovered : covers (spans t) m.start = true) :
    max m.stop (pos + 1) = m.stop ∧ pos < m.stop ∧ ∀ o, p.Open t m.stop o ↔ p.Open t pos o := by
  obtain ⟨⟨hm, hpos⟩, hleast⟩ := hfirst
  have hlt := hm.start_lt_stop hs.within hs.positive
  refine ⟨by omega, by omega, fun o => ?_⟩
  constructor
  · rintro ⟨ho, hge, hopen⟩
    exact ⟨ho, by omega, hopen⟩
  · rintro ⟨ho, hge, hopen⟩
    exact ⟨ho, hm.stop_le_of_covered hs hcovered hopen (hleast o ⟨ho, hge⟩), hopen⟩

/-- **The search finds the first open fit.** -/
theorem first_firstOpen (t : Text) (pos : Nat) :
    First (p.Open t pos) (p.firstOpen t (spans t) pos) := by
  have hfirst := first_findAt hs.within t
  fun_induction firstOpen p t (spans t) pos with
  | case1 pos hle hnone =>
    have hfirst := hfirst pos
    rw [hnone] at hfirst
    exact fun o ho => hfirst o ⟨ho.1, ho.2.1⟩
  | case2 pos hle m hsome hcovered ih =>
    have hfirst := hfirst pos
    rw [hsome] at hfirst
    obtain ⟨hmax, -, hopen⟩ := open_behind_iff hs hfirst hcovered
    rw [hmax] at ih ⊢
    exact First.congr hopen ih
  | case3 pos hle m hsome hopen =>
    have hfirst := hfirst pos
    rw [hsome] at hfirst
    exact ⟨⟨hfirst.1.1, hfirst.1.2, by simpa using hopen⟩, fun o ho => hfirst.2 o ⟨ho.1, ho.2.1⟩⟩
  | case4 pos hlt =>
    intro o ho
    have hle := (ho.1.starts hs.within).le
    have hge := ho.2.1
    omega

/-- **The search stands at places of the text only**, each behind the one before. -/
theorem offsets_climb (t : Text) {pos : Nat} (hpos : IsBoundary t pos) :
    (p.offsets t (spans t) pos).Pairwise (· < ·) ∧ ∀ n ∈ p.offsets t (spans t) pos, pos ≤ n ∧ IsBoundary t n := by
  have hfirst := first_findAt hs.within t
  fun_induction offsets p t (spans t) pos with
  | case1 pos hle hnone => simpa using hpos
  | case2 pos hle m hsome hcovered ih =>
    have hfirst := hfirst pos
    rw [hsome] at hfirst
    obtain ⟨hmax, hlt, -⟩ := open_behind_iff hs hfirst hcovered
    rw [hmax] at ih ⊢
    obtain ⟨hclimb, hplaces⟩ := ih (hfirst.1.1.stops hs.within)
    have hbehind : ∀ n ∈ p.offsets t (spans t) m.stop, pos < n := fun n hn => Nat.lt_of_lt_of_le hlt (hplaces n hn).1
    refine ⟨List.pairwise_cons.2 ⟨hbehind, hclimb⟩, List.forall_mem_cons.2 ⟨⟨Nat.le_refl _, hpos⟩, fun n hn => ?_⟩⟩
    exact ⟨Nat.le_of_lt (hbehind n hn), (hplaces n hn).2⟩
  | case3 pos hle m hsome hopen => simpa using hpos
  | case4 pos hlt => simpa using hpos

end

end Pattern

/-! ## Among the letters -/

/-- The hit by its offsets, in a text where it was found among the letters from byte `start` on. -/
def Found.located (start : Nat) (f : Found) : Occurrence :=
  ⟨start + size (plain f.before), start + size (plain (f.before ++ f.phrase)), f.text⟩

theorem Found.map_located_behind (start : Nat) (ls : List Letter) (f : Option Found) :
    (f.map (Found.behind ls)).map (Found.located start) = f.map (Found.located (start + size (plain ls))) := by
  cases f <;> simp [Found.behind, Found.located, Clause.plain_append, Nat.add_assoc, Found.text]

namespace Pattern

/-- What a scan takes is what fits. -/
theorem fit_of_taken {p : Pattern} {start : Nat} {before : Option Char} {a : Letter} {bs : List Letter} {n : Nat}
    (h : p.taken Letter.char before (a :: bs) = n + 1) : p.fit start before (plain (a :: bs)) =
      some ⟨start, start + size (plain (a :: bs.take n)), plain (a :: bs.take n)⟩ := by
  have htake : (plain (a :: bs)).take (n + 1) = plain (a :: bs.take n) := by simp [plain]
  unfold taken at h
  cases hn : p before ((a :: bs).map Letter.char) with
  | none =>
    rw [hn] at h
    cases h
  | some k =>
    rw [hn, Option.getD_some] at h
    rw [fit, plain, hn, h, Option.map_some, ← plain, htake]

theorem eq_none_of_taken {p : Pattern} (hp : p.Positive) {before : Option Char} {as : List Letter}
    (h : p.taken Letter.char before as = 0) : p before (plain as) = none := by
  unfold taken at h
  cases hn : p before (as.map Letter.char) with
  | none => exact hn
  | some k =>
    rw [hn, Option.getD_some] at h
    exact absurd (hp _ _ _ hn) (by omega)

section
variable {p : Pattern} {u v : Text}

theorem first_of_fit (hw : p.Within) {m : Occurrence} (h : p.fit (size u) u.getLast? v = some m) :
    First (fun o => p.Fits (u ++ v) o ∧ size u ≤ o.start) (some m) := by
  obtain ⟨hm, hstart⟩ := (fits_at_iff hw).2 h
  exact ⟨⟨hm, Nat.le_of_eq hstart.symm⟩, fun o ho => by rw [hstart]; exact ho.2⟩

/-- Where the pattern does not fit, the search may go on behind the next character. -/
theorem open_next_iff (hw : p.Within) {c : Char} (h : p u.getLast? (c :: v) = none) (o : Occurrence) :
    p.Open (u ++ c :: v) (size u + size [c]) o ↔ p.Open (u ++ c :: v) (size u) o := by
  have hnone : p.fit (size u) u.getLast? (c :: v) = none := by rw [fit, h, Option.map_none]
  constructor
  · rintro ⟨ho, hge, hopen⟩
    exact ⟨ho, by omega, hopen⟩
  · rintro ⟨ho, hge, hopen⟩
    refine ⟨ho, Text.IsBoundary.next_le (ho.starts hw) (Nat.lt_of_le_of_ne hge fun heq => ?_), hopen⟩
    rw [(fits_at_iff hw).1 ⟨ho, heq.symm⟩] at hnone
    cases hnone

end

section
variable {p : Pattern} (hs : p.Searchable)
include hs

/-- **Among the letters the same is found**: the first open fit behind the letters `as`. -/
theorem first_find {t : Text} {as bs : List Letter} (h : letters t = as ++ bs) :
    First (p.Open t (size (plain as))) ((p.find (plain as).getLast? bs).map (Found.located (size (plain as)))) := by
  have htext : t = plain as ++ plain bs := by rw [← Clause.plain_append, ← h, Clause.plain_letters]
  unfold find
  generalize hbefore : (plain as).getLast? = before
  fun_induction scan p Letter.char before bs generalizing as with
  | case1 before =>
    intro o ho
    have hlt := ho.1.start_lt_stop hs.within hs.positive
    have hle := (ho.1.stops hs.within).le
    have hge := ho.2.1
    have hsize : size t = size (plain as) := congrArg size (htext.trans (List.append_nil _))
    omega
  | case2 before a bs n hn ih =>
    have hfit : p.fit (size (plain as)) before _ = _ := fit_of_taken hn
    rw [← hbefore] at hfit
    have hfirst := first_of_fit hs.within hfit
    rw [← htext] at hfirst
    have hcovers := Quote.covers_spans h
    cases ha : a.quoted with
    | true =>
      -- the hit is passed over, and every open fit lies behind it
      have has : letters t = (as ++ a :: bs.take n) ++ bs.drop n := by
        rw [h, List.append_assoc, List.cons_append, List.take_append_drop]
      have hlast : (plain (as ++ a :: bs.take n)).getLast? = some ((bs.take n).getLast?.getD a).char := by
        rw [plain, List.getLast?_map, List.getLast?_append, List.getLast?_cons]
        rfl
      have hrest := ih has (by rw [← Clause.plain_append, ← has, Clause.plain_letters]) hlast
      obtain ⟨-, -, hopen⟩ := open_behind_iff hs hfirst (hcovers.trans ha)
      rw [Found.ofTokens?, if_pos ha, Found.map_located_behind, ← Text.size_append, ← Clause.plain_append]
      refine First.congr (fun o => ?_) hrest
      rw [← hopen o, Clause.plain_append, Text.size_append]
    | false =>
      rw [Found.ofTokens?, if_neg (by simp [ha]), Option.map_some]
      exact ⟨⟨hfirst.1.1, hfirst.1.2, hcovers.trans ha⟩, fun o ho => hfirst.2 o ⟨ho.1, ho.2.1⟩⟩
  | case3 before a bs hn ih =>
    have has : letters t = (as ++ [a]) ++ bs := by
      rw [h, List.append_assoc]
      rfl
    have hrest := ih has (by rw [← Clause.plain_append, ← has, Clause.plain_letters]) (by simp [plain])
    -- nothing fits here, so every open fit lies behind the letter
    have hnone := eq_none_of_taken hs.positive hn
    rw [← hbefore] at hnone
    rw [Found.ofTokens?, Found.map_located_behind, ← Text.size_append, ← Clause.plain_append]
    refine First.congr (fun o => ?_) hrest
    rw [htext, Clause.plain_append, Text.size_append]
    exact open_next_iff hs.within hnone o

/-- The search by offsets and the one among the letters give the same. -/
theorem firstOpen_eq_find {t : Text} {as bs : List Letter} (h : letters t = as ++ bs) :
    p.firstOpen t (spans t) (size (plain as)) =
      (p.find (plain as).getLast? bs).map (Found.located (size (plain as))) :=
  First.unique (fun _ _ ho ho' => ho.1.eq_of_start hs.within ho'.1) (first_firstOpen hs t _) (first_find hs h)

end

/-- **The search by offsets finds the first open fit.**  Let it look for the phrases of a table, from any place of a
text on.  It stands at places of the text only, each behind the one before, and gives what it finds at the last of
them.  That is the first of all fits at or behind the place that begin outside the quotations, and nothing where there
is none; it ends at a place of the text and has no quote in it; and it is what is found among the letters. -/
theorem firstOpen_finds {table : List Text} (htable : table ∈ Vocabulary.tables) {t : Text} {pos : Nat}
    (hpos : IsBoundary t pos) :
    let p := word table
    ((p.offsets t (spans t) pos).Pairwise (· < ·) ∧ (∀ n ∈ p.offsets t (spans t) pos, IsBoundary t n) ∧
      p.firstOpen t (spans t) pos = (p.offsets t (spans t) pos).getLast?.bind (p.findAt t)) ∧
    First (p.Open t pos) (p.firstOpen t (spans t) pos) ∧
    (∀ m, p.firstOpen t (spans t) pos = some m → IsBoundary t m.stop ∧ ∀ c ∈ m.text, isQuote c = false) ∧
    ∀ as bs, letters t = as ++ bs → size (plain as) = pos →
      p.firstOpen t (spans t) pos = (p.find (plain as).getLast? bs).map (Found.located pos) := by
  intro p
  have hs : p.Searchable := word_searchable htable
  obtain ⟨hclimb, hplaces⟩ := offsets_climb hs t hpos
  have hfirst := first_firstOpen hs t pos
  have hlast := firstOpen_eq_last hs.within t (spans t) pos
  refine ⟨⟨hclimb, fun n hn => (hplaces n hn).2, hlast⟩, hfirst, fun m hm => ?_, ?_⟩
  · rw [hm] at hfirst
    exact ⟨hfirst.1.1.stops hs.within, hfirst.1.1.free hs⟩
  · rintro as bs h rfl
    exact firstOpen_eq_find hs h

/-- The quoted pivot is skipped, and the one behind the quotation is found. -/
theorem firstOpen_finds_as :
    let t := "mark “as seen” as seen".toList
    let p := word Vocabulary.pivots
    Vocabulary.pivots ∈ Vocabulary.tables ∧ IsBoundary t 4 ∧ p.offsets t (spans t) 4 = [4, 10] ∧
      First (p.Open t 4) (some ⟨19, 21, "as".toList⟩) := by
  intro t p
  have htable : Vocabulary.pivots ∈ Vocabulary.tables := by simp [Vocabulary.tables]
  have hpos : IsBoundary t 4 := ⟨"mark".toList, " “as seen” as seen".toList, by decide, by decide⟩
  have hfound : p.firstOpen t (spans t) 4 = some ⟨19, 21, "as".toList⟩ := by decide +kernel
  have hfirst : First (p.Open t 4) (p.firstOpen t (spans t) 4) := (firstOpen_finds htable hpos).2.1
  rw [hfound] at hfirst
  exact ⟨htable, hpos, by decide +kernel, hfirst⟩

end Pattern
end WatchList
