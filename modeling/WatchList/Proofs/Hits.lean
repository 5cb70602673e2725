import WatchList.Pattern.Open
import WatchList.Proofs.Quotation
import WatchList.Proofs.Scanning
/-!
# Open hits around quotations

For a pattern that stops at quotes, the letters of a quotation are scanned apart and have no open hit.  So the first
open hit is the first one before a quotation, or else the first one behind it (`find_before_quotation`,
`find_behind_quotation`), and a cut leaves the quotation whole in one piece (`cut_between`).  And since no hit holds a
quote, the pieces of a closed text are closed (`closed_cut`), and so is what stands around an open hit
(`closed_around`).
-/
namespace WatchList
namespace Pattern

/-! ## Nothing to find -/

theorem find_nil (p : Pattern) (before : Option Char) : p.find before [] = none := by
  rw [find, scan_nil]
  rfl

theorem cut_nil (p : Pattern) : p.cut [] = [[]] := by
  rw [cut, Quote.letters_nil, scan_nil]
  rfl

/-! ## Tokens side by side -/

theorem onto_seam (s : Text) (us : List Text) (u : Text) :
    ∃ us' u', ∀ (y : Text) (ys : List Text), onto s (us ++ (u ++ y) :: ys) = us' ++ (u' ++ y) :: ys := by
  cases us with
  | nil => exact ⟨[], s ++ u, fun y ys => by rw [List.nil_append, onto, List.append_assoc, List.nil_append]⟩
  | cons v us => exact ⟨(s ++ v) :: us, u, fun y ys => rfl⟩

theorem cutTokens_seam (ts : List (Token Letter)) :
    ∃ us u, ∀ ws y ys, cutTokens ws = y :: ys → cutTokens (ts ++ ws) = us ++ (u ++ y) :: ys := by
  induction ts with
  | nil => exact ⟨[], [], fun ws y ys h => h⟩
  | cons tok ts ih =>
    obtain ⟨us, u, h⟩ := ih
    cases tok with
    | gap l =>
      obtain ⟨us', u', h'⟩ := onto_seam [l.char] us u
      exact ⟨us', u', fun ws y ys hws => by rw [List.cons_append, cutTokens, h ws y ys hws, h']⟩
    | hit l ls =>
      cases hl : l.quoted with
      | true =>
        obtain ⟨us', u', h'⟩ := onto_seam ((l :: ls).map Letter.char) us u
        exact ⟨us', u', fun ws y ys hws => by rw [List.cons_append, cutTokens, if_pos hl, h ws y ys hws, h']⟩
      | false =>
        refine ⟨[] :: us, u, fun ws y ys hws => ?_⟩
        rw [List.cons_append, cutTokens, if_neg (Bool.eq_false_iff.1 hl), h ws y ys hws]
        rfl

/-- **Tokens side by side are cut where each is cut**, and what the cuts leave at the seam runs together. -/
theorem cutTokens_append {ts ws : List (Token Letter)} {us ys : List Text} {u y : Text}
    (hts : cutTokens ts = us ++ [u]) (hws : cutTokens ws = y :: ys) :
    cutTokens (ts ++ ws) = us ++ (u ++ y) :: ys := by
  obtain ⟨us', u', h⟩ := cutTokens_seam ts
  have hend := h [] [] [] rfl
  rw [List.append_nil, List.append_nil, hts] at hend
  obtain ⟨rfl, hu⟩ := List.append_inj' hend rfl
  obtain rfl : u = u' := List.singleton_inj.1 hu
  exact h ws y ys hws

theorem cutTokens_ne_nil (ts : List (Token Letter)) : cutTokens ts ≠ [] := by
  obtain ⟨us, u, h⟩ := cutTokens_seam ts
  have hend := h [] [] [] rfl
  rw [List.append_nil] at hend
  rw [hend]
  exact List.append_ne_nil_of_right_ne_nil us (List.cons_ne_nil _ _)

theorem cut_cons (p : Pattern) (t : Text) : ∃ w ws, p.cut t = w :: ws :=
  List.exists_cons_of_ne_nil (cutTokens_ne_nil _)

theorem cut_concat (p : Pattern) (t : Text) : ∃ us u, p.cut t = us ++ [u] :=
  ⟨_, _, (List.dropLast_concat_getLast (cutTokens_ne_nil _)).symm⟩

theorem cutTokens_append_hit (ts ws : List (Token Letter)) {l : Letter} (ls : List Letter) (hl : l.quoted = false) :
    cutTokens (ts ++ .hit l ls :: ws) = cutTokens ts ++ cutTokens ws := by
  have hws : cutTokens (.hit l ls :: ws) = [] :: cutTokens ws := by
    rw [cutTokens, if_neg (Bool.eq_false_iff.1 hl)]
  have hlast := (List.dropLast_concat_getLast (cutTokens_ne_nil ts)).symm
  rw [cutTokens_append hlast hws, List.append_nil]
  conv => rhs; rw [hlast]
  rw [List.append_assoc, List.singleton_append]

/-- Where no hit is open nothing is cut. -/
theorem cutTokens_of_quoted {ts : List (Token Letter)} (h : ∀ l ls, Token.hit l ls ∈ ts → l.quoted = true) :
    cutTokens ts = [(ts.flatMap Token.items).map Letter.char] := by
  induction ts with
  | nil => rfl
  | cons tok ts ih =>
    have ih := ih fun l ls hhit => h l ls (List.mem_cons_of_mem tok hhit)
    cases tok with
    | gap l => rw [cutTokens, ih]; rfl
    | hit l ls =>
      rw [cutTokens, if_pos (h l ls List.mem_cons_self), ih, List.flatMap_cons, List.map_append]
      rfl

/-- Nothing is found where no hit is open, and nowhere else. -/
theorem ofTokens?_eq_none_iff {ts : List (Token Letter)} :
    Found.ofTokens? ts = none ↔ ∀ l ls, Token.hit l ls ∈ ts → l.quoted = true := by
  induction ts with
  | nil => exact iff_of_true rfl fun l ls h => absurd h List.not_mem_nil
  | cons tok ts ih =>
    cases tok with
    | gap m => simp [Found.ofTokens?, ih]
    | hit m ms =>
      cases hm : m.quoted with
      | false => simpa [Found.ofTokens?, hm] using ⟨m, ⟨ms, Or.inl ⟨rfl, rfl⟩⟩, hm⟩
      | true =>
        simp only [Found.ofTokens?, hm, if_true, Option.map_eq_none_iff, ih, List.mem_cons, Token.hit.injEq]
        refine ⟨fun h l ls hmem => ?_, fun h l ls hmem => h l ls (.inr hmem)⟩
        rcases hmem with ⟨rfl, -⟩ | hmem
        · exact hm
        · exact h l ls hmem

theorem opensIn_of_open_hit {p : Pattern} {ls ms : List Letter} {l : Letter}
    (h : Token.hit l ms ∈ p.scan Letter.char none ls) (hl : l.quoted = false) : p.opensIn ls = true := by
  rw [opensIn, find, Option.isSome_iff_ne_none]
  intro hnone
  rw [ofTokens?_eq_none_iff.1 hnone l ms h] at hl
  cases hl

theorem ofTokens?_append_of_some {ts : List (Token Letter)} (ws : List (Token Letter)) {f : Found}
    (h : Found.ofTokens? ts = some f) :
    Found.ofTokens? (ts ++ ws) = some { f with after := f.after ++ ws.flatMap Token.items } := by
  induction ts generalizing f with
  | nil => cases h
  | cons tok ts ih =>
    cases tok with
    | gap l =>
      obtain ⟨g, hg, rfl⟩ := Option.map_eq_some_iff.1 h
      rw [List.cons_append, Found.ofTokens?, ih hg]
      rfl
    | hit l ls =>
      unfold Found.ofTokens? at h
      rw [List.cons_append, Found.ofTokens?]
      split at h
      · rename_i hl
        obtain ⟨g, hg, rfl⟩ := Option.map_eq_some_iff.1 h
        rw [if_pos hl, ih hg]
        rfl
      · rename_i hl
        obtain rfl := Option.some.inj h
        rw [if_neg hl, List.flatMap_append]

theorem behind_comp (ls ms : List Letter) : Found.behind ls ∘ Found.behind ms = Found.behind (ls ++ ms) := by
  funext f
  rw [Function.comp, Found.behind, Found.behind, Found.behind, List.append_assoc]

theorem ofTokens?_append_of_none {ts : List (Token Letter)} (ws : List (Token Letter))
    (h : Found.ofTokens? ts = none) :
    Found.ofTokens? (ts ++ ws) = (Found.ofTokens? ws).map (Found.behind (ts.flatMap Token.items)) := by
  induction ts with
  | nil =>
    rw [List.nil_append]
    cases Found.ofTokens? ws <;> rfl
  | cons tok ts ih =>
    rw [List.flatMap_cons, List.cons_append]
    cases tok with
    | gap l =>
      rw [Found.ofTokens?, ih (Option.map_eq_none_iff.1 h), Option.map_map, behind_comp]
      rfl
    | hit l ls =>
      unfold Found.ofTokens? at h
      split at h
      · rename_i hl
        rw [Found.ofTokens?, if_pos hl, ih (Option.map_eq_none_iff.1 h), Option.map_map, behind_comp]
        rfl
      · cases h

/-- Behind a barrier that begins no hit, and with no open hit before it, the search begins anew. -/
theorem find_append_skip {p : Pattern} (hw : p.Within) {b : Char} (hb : p.Barrier b) (hs : p.Skips b)
    {before : Option Char} {xs : List Letter} (h : p.find before xs = none) {x : Letter} (hx : x.char = b)
    (ys : List Letter) : p.find before (xs ++ x :: ys) = (p.find none ys).map (Found.behind (xs ++ [x])) := by
  rw [find, scan_append_skip hw hb hs Letter.char before xs hx, ofTokens?_append_of_none _ h, Found.ofTokens?,
    Option.map_map, behind_comp, items_scan]
  rfl

theorem find_append_skip_of_some {p : Pattern} (hw : p.Within) {b : Char} (hb : p.Barrier b) (hs : p.Skips b)
    {before : Option Char} {xs : List Letter} {f : Found} (h : p.find before xs = some f) {x : Letter} (hx : x.char = b)
    (ys : List Letter) : p.find before (xs ++ x :: ys) = some { f with after := f.after ++ x :: ys } := by
  rw [find, scan_append_skip hw hb hs Letter.char before xs hx, ofTokens?_append_of_some _ h, List.flatMap_cons,
    items_scan]
  rfl

/-! ## Quotations -/

section
variable {p : Pattern} (hp : p.StopsAtQuotes) {q q' : Char} {inner : Text} (hQ : (Quote.Part.quoted q inner q').Sound)
include hp hQ

/-- **A quotation is scanned apart**, whatever it stands between. -/
theorem scan_quotation :
    ∃ ts, ts.flatMap Token.items = (Quote.Part.quoted q inner q').letters ∧
      (∀ l ls, Token.hit l ls ∈ ts → l.quoted = true) ∧
      ∀ before xs ys, p.scan Letter.char before (xs ++ (Quote.Part.quoted q inner q').letters ++ ys) =
        p.scan Letter.char before xs ++ (ts ++ p.scan Letter.char none ys) := by
  obtain ⟨hq, hq', -⟩ := hQ
  let is : List Letter := inner.map (⟨·, true⟩)
  have hletters : (Quote.Part.quoted q inner q').letters = ⟨q, true⟩ :: (is ++ [⟨q', true⟩]) := by
    simp [Quote.Part.letters, is]
  have hitems : (.gap ⟨q, true⟩ :: (p.scan Letter.char none is ++ [.gap ⟨q', true⟩])).flatMap Token.items =
      (Quote.Part.quoted q inner q').letters := by
    rw [List.flatMap_cons, List.flatMap_append, items_scan, hletters]
    rfl
  refine ⟨_, hitems, fun l ls hhit => ?_, fun before xs ys => ?_⟩
  · have hmem : l ∈ (Quote.Part.quoted q inner q').letters := by
      rw [← hitems]
      exact List.mem_flatMap.2 ⟨_, hhit, List.mem_cons_self⟩
    exact Quote.quoted_of_mem_letters hmem
  · have hshape : xs ++ (Quote.Part.quoted q inner q').letters ++ ys =
        xs ++ ⟨q, true⟩ :: (is ++ ⟨q', true⟩ :: ys) := by simp [hletters]
    rw [hshape, scan_append_skip hp.within (hp.barrier q hq) (hp.skips q hq) Letter.char before xs rfl,
      scan_append_skip hp.within (hp.barrier q' hq') (hp.skips q' hq') Letter.char none is rfl]
    simp

theorem find_before_quotation {before : Option Char} {xs : List Letter} (ys : List Letter) {f : Found}
    (h : p.find before xs = some f) :
    p.find before (xs ++ (Quote.Part.quoted q inner q').letters ++ ys) =
      some { f with after := f.after ++ (Quote.Part.quoted q inner q').letters ++ ys } := by
  obtain ⟨ts, hts, -, hscan⟩ := scan_quotation hp hQ
  rw [find, hscan, ofTokens?_append_of_some _ h, List.flatMap_append, hts, items_scan, List.append_assoc]

theorem find_behind_quotation {before : Option Char} {xs : List Letter} (ys : List Letter)
    (h : p.find before xs = none) :
    p.find before (xs ++ (Quote.Part.quoted q inner q').letters ++ ys) =
      (p.find none ys).map (Found.behind (xs ++ (Quote.Part.quoted q inner q').letters)) := by
  obtain ⟨ts, hts, hquoted, hscan⟩ := scan_quotation hp hQ
  rw [find, hscan, ofTokens?_append_of_none _ h, ofTokens?_append_of_none _ (ofTokens?_eq_none_iff.2 hquoted), Option.map_map, behind_comp,
    items_scan, hts]
  rfl

/-- **A cut leaves a quotation whole**, in one piece with what stands next to it on either side. -/
theorem cut_between {x y u w : Text} {us ws : List Text} (hx : Quote.Closed x) (hu : p.cut x = us ++ [u])
    (hw : p.cut y = w :: ws) :
    p.cut ((Quote.Part.quoted q inner q').between x y) = us ++ (Quote.Part.quoted q inner q').between u w :: ws := by
  obtain ⟨ts, hts, hquoted, hscan⟩ := scan_quotation hp hQ
  have hpiece : cutTokens ts = [] ++ [(Quote.Part.quoted q inner q').text] := by
    rw [cutTokens_of_quoted hquoted, hts, Quote.Part.char_letters]
    rfl
  have hright : cutTokens (ts ++ p.scan Letter.char none (Quote.letters y)) =
      ((Quote.Part.quoted q inner q').text ++ w) :: ws :=
    cutTokens_append hpiece hw
  rw [cut, Quote.letters_between hx hQ, hscan, cutTokens_append hu hright, ← List.append_assoc]
  rfl

end

/-! ## Pieces -/

/-- Where letters are cut there is an open hit. -/
theorem open_hit_of_cutTokens {ts : List (Token Letter)} (h : 2 ≤ (cutTokens ts).length) :
    ∃ l ls, Token.hit l ls ∈ ts ∧ l.quoted = false := by
  refine Classical.byContradiction fun hnone => ?_
  have hquoted : ∀ l ls, Token.hit l ls ∈ ts → l.quoted = true := by simpa using hnone
  rw [cutTokens_of_quoted hquoted] at h
  exact absurd h (by simp)

theorem infix_of_mem_cutTokens {ts : List (Token Letter)} {y : Text} {ys : List Text} (h : cutTokens ts = y :: ys) :
    y <+: (ts.flatMap Token.items).map Letter.char ∧ ∀ u ∈ ys, u <:+: (ts.flatMap Token.items).map Letter.char := by
  induction ts generalizing y ys with
  | nil =>
    obtain ⟨rfl, rfl⟩ := List.cons.inj h
    exact ⟨List.nil_prefix, fun u hu => absurd hu List.not_mem_nil⟩
  | cons tok ts ih =>
    obtain ⟨w, ws, hcut⟩ := List.exists_cons_of_ne_nil (cutTokens_ne_nil ts)
    obtain ⟨hw, hws⟩ := ih hcut
    rw [List.flatMap_cons, List.map_append]
    cases tok with
    | gap l =>
      rw [cutTokens, hcut] at h
      obtain ⟨rfl, rfl⟩ := List.cons.inj h
      exact ⟨(List.prefix_append_right_inj [l.char]).2 hw, fun u hu => (hws u hu).trans (List.suffix_append _ _).isInfix⟩
    | hit l ls =>
      cases hl : l.quoted with
      | true =>
        rw [cutTokens, if_pos hl, hcut] at h
        obtain ⟨rfl, rfl⟩ := List.cons.inj h
        exact ⟨(List.prefix_append_right_inj ((l :: ls).map Letter.char)).2 hw,
          fun u hu => (hws u hu).trans (List.suffix_append _ _).isInfix⟩
      | false =>
        rw [cutTokens, if_neg (Bool.eq_false_iff.1 hl), hcut] at h
        obtain ⟨rfl, rfl⟩ := List.cons.inj h
        refine ⟨List.nil_prefix, List.forall_mem_cons.2 ⟨?_, fun u hu => ?_⟩⟩
        · exact hw.isInfix.trans (List.suffix_append _ _).isInfix
        · exact (hws u hu).trans (List.suffix_append _ _).isInfix

/-- A piece of a text stands in it. -/
theorem infix_of_mem_cut {p : Pattern} {t u : Text} (h : u ∈ p.cut t) : u <:+: t := by
  obtain ⟨y, ys, hcut⟩ := cut_cons p t
  obtain ⟨hy, hys⟩ := infix_of_mem_cutTokens hcut
  rw [items_scan, Quote.char_letters] at hy hys
  rw [hcut] at h
  rcases List.mem_cons.1 h with rfl | h
  · exact hy.isInfix
  · exact hys u h

/-! ## Closed pieces -/

theorem hit_mem_of_ofTokens? {ts : List (Token Letter)} {f : Found} (h : Found.ofTokens? ts = some f) :
    ∃ l ls, Token.hit l ls ∈ ts ∧ l.quoted = false ∧ f.phrase = l :: ls := by
  induction ts generalizing f with
  | nil => cases h
  | cons tok ts ih =>
    cases tok with
    | gap m =>
      obtain ⟨g, hg, rfl⟩ := Option.map_eq_some_iff.1 h
      obtain ⟨l, ls, hmem, hl, hphrase⟩ := ih hg
      exact ⟨l, ls, List.mem_cons_of_mem _ hmem, hl, hphrase⟩
    | hit m ms =>
      unfold Found.ofTokens? at h
      split at h
      · obtain ⟨g, hg, rfl⟩ := Option.map_eq_some_iff.1 h
        obtain ⟨l, ls, hmem, hl, hphrase⟩ := ih hg
        exact ⟨l, ls, List.mem_cons_of_mem _ hmem, hl, hphrase⟩
      · rename_i hm
        obtain rfl := Option.some.inj h
        exact ⟨m, ms, List.mem_cons_self, by simpa using hm, rfl⟩

section
variable {p : Pattern} (hp : p.StopsAtQuotes)
include hp

theorem free_of_hit_mem {before : Option Char} {as ls : List Letter} {l : Letter}
    (h : Token.hit l ls ∈ p.scan Letter.char before as) : ∀ c ∈ (l :: ls).map Letter.char, isQuote c = false := by
  obtain ⟨u, v, -, hfit⟩ := place_of_hit_mem hp.within h
  have hfree := hp.free hfit
  rw [List.map_append, List.take_append_of_le_length (by simp), List.take_of_length_le (by simp)] at hfree
  exact hfree

theorem closed_around {t : Text} (ht : Quote.Closed t) {f : Found} (h : p.find none (Quote.letters t) = some f) :
    Quote.Closed (f.before.map Letter.char) ∧ Quote.Closed (f.after.map Letter.char) := by
  obtain ⟨l, ls, hmem, hl, hphrase⟩ := hit_mem_of_ofTokens? h
  have hitems := items_find h
  rw [hphrase, List.append_assoc] at hitems
  have hbefore := Quote.closed_of_open ht hitems.symm hl
  have hchars : f.before.map Letter.char ++ ((l :: ls).map Letter.char ++ f.after.map Letter.char) = t := by
    rw [← Quote.char_letters t, ← hitems, List.map_append, List.map_append]
  rw [← hchars] at ht
  exact ⟨hbefore, (ht.of_append hbefore).of_append (Quote.closed_of_free (free_of_hit_mem hp hmem))⟩

end

/-- Tokens that follow the letters `as` of a closed text: their first piece closes what `as` left open, and the other
pieces are closed. -/
theorem closed_cutTokens {t : Text} (ht : Quote.Closed t) {ts : List (Token Letter)}
    (hfree : ∀ l ls, Token.hit l ls ∈ ts → ∀ c ∈ (l :: ls).map Letter.char, isQuote c = false) {as : List Letter}
    (h : Quote.letters t = as ++ ts.flatMap Token.items) :
    ∃ y ys, cutTokens ts = y :: ys ∧ Quote.Closed (as.map Letter.char ++ y) ∧ ∀ u ∈ ys, Quote.Closed u := by
  induction ts generalizing as with
  | nil =>
    refine ⟨[], [], rfl, ?_, fun u hu => absurd hu List.not_mem_nil⟩
    rw [List.flatMap_nil, List.append_nil] at h
    rw [← h, Quote.char_letters, List.append_nil]
    exact ht
  | cons tok ts ih =>
    rw [List.flatMap_cons, ← List.append_assoc] at h
    obtain ⟨y, ys, hcut, hy, hys⟩ := ih (fun l ls hl => hfree l ls (List.mem_cons_of_mem _ hl)) h
    rw [List.map_append, List.append_assoc] at hy
    cases tok with
    | gap l => exact ⟨l.char :: y, ys, by rw [cutTokens, hcut]; rfl, hy, hys⟩
    | hit l ls =>
      cases hl : l.quoted with
      | true => exact ⟨_, ys, by rw [cutTokens, if_pos hl, hcut]; rfl, hy, hys⟩
      | false =>
        rw [List.append_assoc] at h
        have has := Quote.closed_of_open ht h hl
        have hhit := Quote.closed_of_free (hfree l ls List.mem_cons_self)
        refine ⟨[], y :: ys, by rw [cutTokens, if_neg (Bool.eq_false_iff.1 hl), hcut], ?_, ?_⟩
        · rw [List.append_nil]
          exact has
        · exact List.forall_mem_cons.2 ⟨(hy.of_append has).of_append hhit, hys⟩

/-- **The pieces of a closed text are closed.** -/
theorem closed_cut {p : Pattern} (hp : p.StopsAtQuotes) {t : Text} (ht : Quote.Closed t) :
    ∀ u ∈ p.cut t, Quote.Closed u := by
  have hitems : Quote.letters t = [] ++ (p.scan Letter.char none (Quote.letters t)).flatMap Token.items :=
    (items_scan p Letter.char none _).symm
  obtain ⟨y, ys, hcut, hy, hys⟩ := closed_cutTokens ht (fun l ls hl => free_of_hit_mem hp hl) hitems
  rw [cut, hcut]
  exact List.forall_mem_cons.2 ⟨hy, hys⟩

end Pattern
end WatchList
