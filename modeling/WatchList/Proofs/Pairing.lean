import WatchList.Proofs.Offsets
import WatchList.Proofs.Quotation
/-!
# Quotations are pairs of quotes

The quotes of a text taken two by two are its quotations (`Quote.spans_eq_paired`): the first with the second, the third
with the fourth, and so on, whatever stands between them.  So the quotes decide by their number alone what a quotation
covers (`Quote.getElem?_spans`, `Quote.covers_iff`), and a last one without a partner covers nothing.
-/
namespace WatchList
namespace Quote

open Text (size IsBoundary slice?)

/-! ## The quotes of a text -/

/-- The quotes of a text that starts at byte `start`, in order. -/
def marksFrom (start : Nat) : Text → List Range
  | [] => []
  | c :: t =>
    if isQuote c then ⟨start, start + c.utf8Size⟩ :: marksFrom (start + c.utf8Size) t
    else marksFrom (start + c.utf8Size) t

def marks (t : Text) : List Range := marksFrom 0 t

/-- The quotations between the first and the second quote, the third and the fourth, and so on. -/
def paired : List Range → List Span
  | a :: b :: ms => ⟨a.start, a.stop, b.start, b.stop⟩ :: paired ms
  | _ => []

/-- The range is that of the quote with `n` quotes before it. -/
def IsMark (t : Text) (n : Nat) (r : Range) : Prop :=
  ∃ u q v, t = u ++ q :: v ∧ isQuote q = true ∧ u.countP isQuote = n ∧ r = ⟨size u, size (u ++ [q])⟩

theorem length_marksFrom (start : Nat) (t : Text) : (marksFrom start t).length = t.countP isQuote := by
  induction t generalizing start with
  | nil => rfl
  | cons c t ih => by_cases hc : isQuote c = true <;> simp [marksFrom, hc, ih]

theorem getElem?_marksFrom {start n : Nat} {t : Text} {r : Range} :
    (marksFrom start t)[n]? = some r ↔ ∃ u q v, t = u ++ q :: v ∧ isQuote q = true ∧ u.countP isQuote = n ∧
      r = ⟨start + size u, start + size (u ++ [q])⟩ := by
  induction t generalizing start n with
  | nil => simp [marksFrom]
  | cons c t ih =>
    -- the quote is the first character, or a quote of what follows it
    have hsplit : ∀ P : Text → Char → Prop, (∃ u q v, c :: t = u ++ q :: v ∧ P u q) ↔
        P [] c ∨ ∃ u q v, t = u ++ q :: v ∧ P (c :: u) q := by
      intro P
      constructor
      · rintro ⟨u, q, v, h, hP⟩
        cases u with
        | nil =>
          obtain ⟨rfl, -⟩ := List.cons.inj h
          exact .inl hP
        | cons d u =>
          obtain ⟨rfl, rfl⟩ := List.cons.inj h
          exact .inr ⟨u, q, v, rfl, hP⟩
      · rintro (hP | ⟨u, q, v, rfl, hP⟩)
        · exact ⟨[], c, t, rfl, hP⟩
        · exact ⟨c :: u, q, v, rfl, hP⟩
    rw [hsplit]
    by_cases hc : isQuote c = true
    · cases n with
      | zero => simpa [marksFrom, hc, size] using eq_comm
      | succ n => simp [marksFrom, hc, ih, size, Nat.add_assoc]
    · simp [marksFrom, hc, ih, size, Nat.add_assoc]

theorem length_paired : ∀ ms : List Range, (paired ms).length = ms.length / 2
  | [] => rfl
  | [_] => by simp [paired]
  | _ :: _ :: ms => by simp [paired, length_paired ms]; omega

theorem getElem?_paired : ∀ {ms : List Range} {k : Nat} {s : Span}, (paired ms)[k]? = some s ↔
    ms[2 * k]? = some ⟨s.start, s.innerStart⟩ ∧ ms[2 * k + 1]? = some ⟨s.innerStop, s.stop⟩
  | [], k, s => by simp [paired]
  | [a], k, s => by simp [paired]
  | a :: b :: ms, 0, s => by cases s; cases a; cases b; simp [paired, and_assoc]
  | a :: b :: ms, k + 1, s => by
    have ih : (paired ms)[k]? = some s ↔ _ := getElem?_paired
    simpa [paired, Nat.mul_add] using ih

/-! ## Quotations -/

/-- The quotations of parts side by side. -/
theorem spansFrom_append (start : Nat) (ps rs : List Part) :
    spansFrom start (ps ++ rs) = spansFrom start ps ++ spansFrom (start + size (ps.flatMap Part.text)) rs := by
  induction ps generalizing start with
  | nil => rfl
  | cons p ps ih => cases p <;> simp [spansFrom, ih, Part.text, size, Nat.add_assoc]

theorem bounds_of_mem_spansFrom {ps : List Part} {start : Nat} {s : Span} (h : s ∈ spansFrom start ps) :
    start ≤ s.start ∧ s.start < s.stop ∧ s.stop ≤ start + size (ps.flatMap Part.text) := by
  induction ps generalizing start with
  | nil => cases h
  | cons p ps ih =>
    cases p with
    | plain c =>
      have hbounds := ih h
      simp only [List.flatMap_cons, Part.text, Text.size_append, size]
      omega
    | quoted q inner q' =>
      have hpos := q.utf8Size_pos
      simp only [List.flatMap_cons, Part.text, Text.size_append, size]
      rcases List.mem_cons.1 h with rfl | h
      · simp only
        omega
      · have hbounds := ih h
        omega

theorem spansFrom_plain (start : Nat) (s : Text) : spansFrom start (s.map .plain) = [] := by
  induction s generalizing start with
  | nil => rfl
  | cons c s ih => exact ih _

theorem spansFrom_partsFrom (t : Text) :
    (∀ start, spansFrom start (partsFrom none t) = paired (marksFrom start t)) ∧
      ∀ start q inner, spansFrom start (partsFrom (some (q, inner)) t) =
        paired (⟨start, start + q.utf8Size⟩ :: marksFrom (start + q.utf8Size + size inner.reverse) t) := by
  induction t with
  | nil => exact ⟨fun _ => rfl, fun start q inner => spansFrom_plain start _⟩
  | cons c t ih =>
    obtain ⟨hnone, hsome⟩ := ih
    cases hc : isQuote c with
    | true =>
      constructor
      · intro start
        rw [partsFrom_none_quote hc, hsome, marksFrom, if_pos hc]
        rfl
      · intro start q inner
        rw [partsFrom_some_quote hc, spansFrom, hnone, marksFrom, if_pos hc, paired]
    | false =>
      constructor
      · intro start
        rw [partsFrom_none_plain hc, spansFrom, hnone, marksFrom, if_neg (by simp [hc])]
      · intro start q inner
        rw [partsFrom_some_plain hc, hsome, marksFrom, if_neg (by simp [hc]), List.reverse_cons, Text.size_append,
          ← Nat.add_assoc]
        rfl

/-- **The quotations of a text are its quotes two by two.** -/
theorem spans_eq_paired (t : Text) : spans t = paired (marks t) := (spansFrom_partsFrom t).1 0

theorem getElem?_marks {t : Text} {n : Nat} {r : Range} : (marks t)[n]? = some r ↔ IsMark t n r := by
  simp [marks, getElem?_marksFrom, IsMark]

/-- **Each quotation lies between a quote with an even number of quotes before it and the next one.** -/
theorem getElem?_spans {t : Text} {k : Nat} {s : Span} : (spans t)[k]? = some s ↔
    IsMark t (2 * k) ⟨s.start, s.innerStart⟩ ∧ IsMark t (2 * k + 1) ⟨s.innerStop, s.stop⟩ := by
  rw [spans_eq_paired, getElem?_paired, getElem?_marks, getElem?_marks]

theorem length_spans (t : Text) : (spans t).length = t.countP isQuote / 2 := by
  rw [spans_eq_paired, length_paired, marks, length_marksFrom]

/-- **A quote and a later one**, with what stands between them. -/
theorem IsMark.exists_between {t : Text} {n m : Nat} {a b : Range} (ha : IsMark t n a) (hb : IsMark t m b) (h : n < m) :
    ∃ x q inner q' y, t = x ++ q :: (inner ++ q' :: y) ∧ isQuote q = true ∧ isQuote q' = true ∧
      m = n + 1 + inner.countP isQuote ∧ a = ⟨size x, size (x ++ [q])⟩ ∧
      b = ⟨size (x ++ q :: inner), size (x ++ q :: (inner ++ [q']))⟩ := by
  obtain ⟨x, q, v, rfl, hq, rfl, rfl⟩ := ha
  obtain ⟨u, q', y, heq, hq', rfl, rfl⟩ := hb
  have hsize : size x ≤ size u := by
    refine Nat.le_of_not_lt fun hlt => ?_
    obtain ⟨w, rfl, -⟩ := Text.exists_between heq.symm (Nat.le_of_lt hlt)
    rw [List.countP_append] at h
    omega
  obtain ⟨w, rfl, hw⟩ := Text.exists_between heq hsize
  cases w with
  | nil =>
    rw [List.append_nil] at h
    exact absurd h (Nat.lt_irrefl _)
  | cons c inner =>
    obtain ⟨rfl, rfl⟩ := List.cons.inj hw
    refine ⟨x, q, inner, q', y, rfl, hq, hq', ?_, rfl, ?_⟩
    · simp [hq]
      omega
    · simp

theorem IsMark.stop_le_start {t : Text} {n m : Nat} {a b : Range} (ha : IsMark t n a) (hb : IsMark t m b) (h : n < m) :
    a.stop ≤ b.start := by
  obtain ⟨x, q, inner, q', y, -, -, -, -, rfl, rfl⟩ := ha.exists_between hb h
  simp [Text.size]

/-- The quotation lies in the text: with its ends at places of it, a quote first, a quote last, and none between. -/
structure Span.Sound (s : Span) (t : Text) : Prop where
  start_lt : s.start < s.innerStart
  inner_le : s.innerStart ≤ s.innerStop
  stop_gt : s.innerStop < s.stop
  within : s.stop ≤ size t
  starts : IsBoundary t s.start
  innerStarts : IsBoundary t s.innerStart
  innerStops : IsBoundary t s.innerStop
  stops : IsBoundary t s.stop
  quotes : ∃ q inner q', slice? t ⟨s.start, s.stop⟩ = some (q :: (inner ++ [q'])) ∧
    slice? t ⟨s.innerStart, s.innerStop⟩ = some inner ∧ isQuote q = true ∧ isQuote q' = true ∧
    ∀ c ∈ inner, isQuote c = false

/-- A quotation between the texts `x` and `y`. -/
theorem exists_of_mem_spans {t : Text} {s : Span} (h : s ∈ spans t) :
    ∃ x q inner q' y, t = x ++ q :: (inner ++ q' :: y) ∧ isQuote q = true ∧ isQuote q' = true ∧
      (∀ c ∈ inner, isQuote c = false) ∧
      s = ⟨size x, size (x ++ [q]), size (x ++ q :: inner), size (x ++ q :: (inner ++ [q']))⟩ := by
  obtain ⟨k, hk⟩ := List.mem_iff_getElem?.1 h
  obtain ⟨hopening, hclosing⟩ := getElem?_spans.1 hk
  obtain ⟨x, q, inner, q', y, rfl, hq, hq', hcount, ha, hb⟩ := hopening.exists_between hclosing (by omega)
  have hfree : ∀ c ∈ inner, isQuote c = false := fun c hc => by
    simpa using List.countP_eq_zero.1 (show inner.countP isQuote = 0 by omega) c hc
  refine ⟨x, q, inner, q', y, rfl, hq, hq', hfree, ?_⟩
  cases s
  simp_all

theorem sound_of_mem_spans {t : Text} {s : Span} (h : s ∈ spans t) : s.Sound t := by
  obtain ⟨x, q, inner, q', y, rfl, hq, hq', hfree, rfl⟩ := exists_of_mem_spans h
  have hpos := q.utf8Size_pos
  have hpos' := q'.utf8Size_pos
  constructor <;> simp only
  · simpa [size] using hpos
  · simp [size]
  · simpa [size] using hpos'
  · simp [size]
  · exact ⟨x, _, rfl, rfl⟩
  · exact ⟨x ++ [q], inner ++ q' :: y, by simp, rfl⟩
  · exact ⟨x ++ q :: inner, q' :: y, by simp, rfl⟩
  · exact ⟨x ++ q :: (inner ++ [q']), y, by simp, rfl⟩
  · refine ⟨q, inner, q', ?_, ?_, hq, hq', hfree⟩
    · exact Text.slice?_eq_some_iff.2 ⟨x, y, by simp, rfl⟩
    · exact Text.slice?_eq_some_iff.2 ⟨x ++ [q], q' :: y, by simp, by simp⟩

/-- **Quotations stand one behind the other.** -/
theorem pairwise_spans (t : Text) : (spans t).Pairwise fun s s' => s.stop ≤ s'.start := by
  rw [List.pairwise_iff_getElem]
  intro i j hi hj hij
  have hclosing := (getElem?_spans.1 (List.getElem?_eq_getElem hi)).2
  have hopening := (getElem?_spans.1 (List.getElem?_eq_getElem hj)).1
  exact hclosing.stop_le_start hopening (by omega)

theorem covers_iff {ss : List Span} {n : Nat} : covers ss n = true ↔ ∃ s ∈ ss, s.start ≤ n ∧ n < s.stop := by
  simp [covers]

/-- **What the quotations of a text cover**: from the first quote to the end of the second, from the third to the end of
the fourth, and so on. -/
theorem covers_spans_iff {t : Text} {n : Nat} : covers (spans t) n = true ↔
    ∃ k a b, IsMark t (2 * k) a ∧ IsMark t (2 * k + 1) b ∧ a.start ≤ n ∧ n < b.stop := by
  rw [covers_iff]
  constructor
  · rintro ⟨s, hs, hle, hlt⟩
    obtain ⟨k, hk⟩ := List.mem_iff_getElem?.1 hs
    obtain ⟨hopening, hclosing⟩ := getElem?_spans.1 hk
    exact ⟨k, _, _, hopening, hclosing, hle, hlt⟩
  · rintro ⟨k, a, b, ha, hb, hle, hlt⟩
    exact ⟨⟨a.start, a.stop, b.start, b.stop⟩, List.mem_of_getElem? (getElem?_spans.2 ⟨ha, hb⟩), hle, hlt⟩

/-! ## The text around the quotations -/

/-- What is left of a part when quotations are taken out. -/
def Part.outside : Part → Text
  | .plain c => [c]
  | .quoted _ _ _ => [',']

theorem withoutQuoted_eq_flatMap (t : Text) : withoutQuoted t = (parts t).flatMap Part.outside := rfl

theorem outside_eq_text {ps : List Part} {start : Nat} (h : spansFrom start ps = []) :
    ps.flatMap Part.outside = ps.flatMap Part.text := by
  induction ps generalizing start with
  | nil => rfl
  | cons p ps ih =>
    cases p with
    | plain c => exact congrArg (c :: ·) (ih h)
    | quoted q inner q' => cases h

/-- Where nothing is quoted, nothing is taken out. -/
theorem withoutQuoted_of_spans_eq_nil {t : Text} (h : spans t = []) : withoutQuoted t = t := by
  rw [withoutQuoted_eq_flatMap, outside_eq_text h, text_parts]

theorem Part.Sound.free_outside {p : Part} (h : p.Sound) : ∀ c ∈ p.outside, isQuote c = false := by
  intro c hc
  cases p with
  | plain d =>
    obtain rfl := List.mem_singleton.1 hc
    exact h
  | quoted q inner q' =>
    obtain rfl := List.mem_singleton.1 hc
    decide

/-- At most the last quote is left, the one without a partner. -/
theorem countP_withoutQuoted (t : Text) : (withoutQuoted t).countP isQuote ≤ 1 := by
  obtain ⟨ps, last, hps, hsound, hlast⟩ := partsFrom_eq (o := none) trivial t
  have hpaired : (ps.flatMap Part.outside).countP isQuote = 0 := by
    refine countP_of_free fun c hc => ?_
    obtain ⟨p, hp, hc⟩ := List.mem_flatMap.1 hc
    exact (hsound p hp).free_outside c hc
  have hopen : (openText last).countP isQuote ≤ 1 := by
    rcases last with _ | ⟨q, inner⟩
    · simp [openText]
    · have hinner : inner.reverse.countP isQuote = 0 := countP_of_free fun c hc => hlast.2 c (List.mem_reverse.1 hc)
      simp [openText, hlast.1, hinner]
  have hlone : ((openText last).map Part.plain).flatMap Part.outside = openText last := by
    rw [List.flatMap_map]
    exact List.flatMap_singleton' _
  rw [withoutQuoted_eq_flatMap, parts, hps, List.flatMap_append, List.countP_append, hpaired, hlone, Nat.zero_add]
  exact hopen

theorem spans_withoutQuoted (t : Text) : spans (withoutQuoted t) = [] := by
  have hcount := countP_withoutQuoted t
  rw [← List.length_eq_zero_iff, length_spans]
  omega

/-- **The quotations of a text are its quotes in consecutive pairs.**  There are half as many as quotes; the one with
number `k` reaches from the quote with `2 * k` quotes before it to the next quote; they stand in order, apart, and with
all ends at places of the text; and what they cover is what lies between the quotes of a pair, these included.  Around
them at most one quote is left, so nothing is quoted there and nothing more is taken out. -/
theorem spans_are_pairs_of_quotes (t : Text) :
    (spans t).length = t.countP isQuote / 2 ∧
      (∀ k s, (spans t)[k]? = some s ↔
        IsMark t (2 * k) ⟨s.start, s.innerStart⟩ ∧ IsMark t (2 * k + 1) ⟨s.innerStop, s.stop⟩) ∧
      ((spans t).Pairwise fun s s' => s.stop ≤ s'.start) ∧ (∀ s ∈ spans t, s.Sound t) ∧
      (∀ n, covers (spans t) n = true ↔
        ∃ k a b, IsMark t (2 * k) a ∧ IsMark t (2 * k + 1) b ∧ a.start ≤ n ∧ n < b.stop) ∧
      (withoutQuoted t).countP isQuote ≤ 1 ∧ spans (withoutQuoted t) = [] ∧
      withoutQuoted (withoutQuoted t) = withoutQuoted t :=
  ⟨length_spans t, fun _ _ => getElem?_spans, pairwise_spans t, fun _ => sound_of_mem_spans,
    fun _ => covers_spans_iff, countP_withoutQuoted t, spans_withoutQuoted t,
    withoutQuoted_of_spans_eq_nil (spans_withoutQuoted t)⟩

/-- Any quote closes a quotation, and the last quote here is left. -/
example : spans "“Dune\" and «Heat".toList = [⟨0, 3, 7, 8⟩] := by decide

end Quote
end WatchList
