import WatchList.Clause
import WatchList.Proofs.Hits
/-!
# Windows and quotations

The window of a clause begins and ends at open hits, so a quotation of the clause lies outside it, and then what it
holds is of no account, or lies in it whole.  Both cases are settled by what stands around the quotation: the window is
the same text whatever the quotation holds, or the quotation between the same two texts (`verbWindow?_between`,
`statusWindow?_between`).
-/
namespace WatchList
namespace Clause

open Quote (Closed Part letters)
open Pattern (StopsAtQuotes find_before_quotation find_behind_quotation)

variable {q q' : Char}

theorem plain_append (ls ms : List Letter) : plain (ls ++ ms) = plain ls ++ plain ms := List.map_append

theorem plain_quotation (xs ys : List Letter) (inner : Text) :
    plain (xs ++ (Part.quoted q inner q').letters ++ ys) = (Part.quoted q inner q').between (plain xs) (plain ys) := by
  rw [plain_append, plain_append, Part.between]
  congr 2
  exact Part.char_letters _

theorem plain_letters (t : Text) : plain (letters t) = t := Quote.char_letters t

/-- Whether letters around a quotation have an open hit, and which text it hits, does not depend on what the quotation
holds. -/
theorem find_text_quotation {p : Pattern} (hp : p.StopsAtQuotes) (q q' : Char) (before : Option Char)
    (xs ys : List Letter) :
    ∃ word, ∀ inner, (Part.quoted q inner q').Sound →
      (p.find before (xs ++ (Part.quoted q inner q').letters ++ ys)).map Found.text = word := by
  cases hf : p.find before xs with
  | some f =>
    refine ⟨some f.text, fun inner hQ => ?_⟩
    rw [find_before_quotation hp hQ ys hf]
    rfl
  | none =>
    refine ⟨(p.find none ys).map Found.text, fun inner hQ => ?_⟩
    rw [find_behind_quotation hp hQ ys hf, Option.map_map]
    rfl

theorem opensIn_quotation {p : Pattern} (hp : p.StopsAtQuotes) {inner : Text} (hQ : (Part.quoted q inner q').Sound)
    (xs ys : List Letter) :
    p.opensIn (xs ++ (Part.quoted q inner q').letters ++ ys) = (p.opensIn xs || p.opensIn ys) := by
  unfold Pattern.opensIn
  cases hf : p.find none xs with
  | some f =>
    rw [find_before_quotation hp hQ ys hf]
    rfl
  | none =>
    rw [find_behind_quotation hp hQ ys hf, Option.isSome_map]
    rfl

def followed (v : Found) (p : Part) (ls : List Letter) : Found := { v with after := v.after ++ p.letters ++ ls }

theorem findAfter_followed_of_some {p : Pattern} (hp : p.StopsAtQuotes) {inner : Text}
    (hQ : (Part.quoted q inner q').Sound) (ls : List Letter) {v f : Found} (h : p.findAfter v = some f) :
    p.findAfter (followed v (Part.quoted q inner q') ls) = some (followed f (Part.quoted q inner q') ls) :=
  find_before_quotation hp hQ ls h

theorem findAfter_followed_of_none {p : Pattern} (hp : p.StopsAtQuotes) {inner : Text}
    (hQ : (Part.quoted q inner q').Sound) (ls : List Letter) {v : Found} (h : p.findAfter v = none) :
    p.findAfter (followed v (Part.quoted q inner q') ls) =
      (p.find none ls).map (Found.behind (v.after ++ (Part.quoted q inner q').letters)) :=
  find_behind_quotation hp hQ ls h

theorem findAfter_behind (p : Pattern) (ls : List Letter) (f : Found) :
    p.findAfter (f.behind ls) = p.findAfter f := rfl

/-! ## After a verb -/

def windowAfter (stop : Pattern) (v : Found) : Text :=
  match stop.findAfter v with
  | some s => plain s.before
  | none => plain v.after

theorem verbWindow?_eq (verb stop : Pattern) (clause : Text) :
    verbWindow? verb stop clause = (verb.find none (letters clause)).map (windowAfter stop) := rfl

theorem windowAfter_followed {stop : Pattern} (hs : stop.StopsAtQuotes) (v : Found) (y : Text) (q q' : Char) :
    (∃ w, ∀ inner, (Part.quoted q inner q').Sound →
      windowAfter stop (followed v (Part.quoted q inner q') (letters y)) = w) ∨
    (∃ y', ∀ inner, (Part.quoted q inner q').Sound →
      windowAfter stop (followed v (Part.quoted q inner q') (letters y)) =
        (Part.quoted q inner q').between (plain v.after) y') := by
  cases hstop : stop.findAfter v with
  | some s =>
    refine .inl ⟨plain s.before, fun inner hQ => ?_⟩
    rw [windowAfter, findAfter_followed_of_some hs hQ _ hstop]
    rfl
  | none =>
    cases hy : stop.find none (letters y) with
    | some s =>
      refine .inr ⟨plain s.before, fun inner hQ => ?_⟩
      rw [windowAfter, findAfter_followed_of_none hs hQ _ hstop, hy]
      exact plain_quotation v.after s.before inner
    | none =>
      refine .inr ⟨y, fun inner hQ => ?_⟩
      rw [windowAfter, findAfter_followed_of_none hs hQ _ hstop, hy]
      exact (plain_quotation v.after (letters y) inner).trans (by rw [plain_letters])

/-- **The window after a verb** does not depend on what a quotation of the clause holds, or holds the quotation. -/
theorem verbWindow?_between {verb stop : Pattern} (hv : verb.StopsAtQuotes) (hs : stop.StopsAtQuotes) {x : Text}
    (hx : Closed x) (y : Text) (q q' : Char) :
    (∃ w, ∀ inner, (Part.quoted q inner q').Sound →
      verbWindow? verb stop ((Part.quoted q inner q').between x y) = w) ∨
    (∃ x' y', Closed x' ∧ ∀ inner, (Part.quoted q inner q').Sound →
      verbWindow? verb stop ((Part.quoted q inner q').between x y) =
        some ((Part.quoted q inner q').between x' y')) := by
  cases hf : verb.find none (letters x) with
  | none =>
    -- the verb is behind the quotation, and so is the whole window
    refine .inl ⟨(verb.find none (letters y)).map (windowAfter stop), fun inner hQ => ?_⟩
    rw [verbWindow?_eq, Quote.letters_between hx hQ, find_behind_quotation hv hQ _ hf, Option.map_map]
    rfl
  | some v =>
    have hclosed : Closed (plain v.after) := (Pattern.closed_around hv hx hf).2
    have hfind : ∀ inner, (Part.quoted q inner q').Sound →
        verbWindow? verb stop ((Part.quoted q inner q').between x y) =
          some (windowAfter stop (followed v (Part.quoted q inner q') (letters y))) := fun inner hQ => by
      rw [verbWindow?_eq, Quote.letters_between hx hQ, find_before_quotation hv hQ _ hf]
      rfl
    rcases windowAfter_followed hs v y q q' with ⟨w, hw⟩ | ⟨y', hy'⟩
    · exact .inl ⟨some w, fun inner hQ => by rw [hfind inner hQ, hw inner hQ]⟩
    · exact .inr ⟨plain v.after, y', hclosed, fun inner hQ => by rw [hfind inner hQ, hy' inner hQ]⟩

/-! ## Around a status -/

/-- The window of a status change that begins behind an open hit, with the words of its status; `anywhere` are the words
of the first status of the clause. -/
def statusAfter (anywhere : Option Text) (v : Found) : Option (Text × Text) :=
  match Vocabulary.pivot.findAfter v with
  | some p => (((Vocabulary.statusAlias.findAfter p).map Found.text).or anywhere).map fun word => (plain p.before, word)
  | none =>
    match Vocabulary.statusAlias.findAfter v with
    | some a => some (plain a.before, a.text)
    | none => anywhere.map fun word => (plain v.after, word)

theorem statusWindow?_eq (clause : Text) :
    statusWindow? clause = (Vocabulary.statusVerb.find none (letters clause)).bind
      (statusAfter ((Vocabulary.statusAlias.find none (letters clause)).map Found.text)) := by
  rw [statusWindow?]
  congr 1
  funext v
  rw [statusAfter]
  cases Vocabulary.pivot.findAfter v with
  | some p =>
    simp only
    cases Vocabulary.statusAlias.findAfter p <;> cases Vocabulary.statusAlias.find none (letters clause) <;> rfl
  | none =>
    simp only
    cases Vocabulary.statusAlias.findAfter v <;> cases Vocabulary.statusAlias.find none (letters clause) <;> rfl

section
variable {anywhere : Option Text} {v : Found} (hpivot : Vocabulary.pivot.findAfter v = none)

theorem statusAfter_of_pivot {p : Found} (hp : Vocabulary.pivot.findAfter v = some p) :
    statusAfter anywhere v =
      (((Vocabulary.statusAlias.findAfter p).map Found.text).or anywhere).map fun word => (plain p.before, word) := by
  rw [statusAfter, hp]

include hpivot

theorem statusAfter_of_alias {a : Found} (ha : Vocabulary.statusAlias.findAfter v = some a) :
    statusAfter anywhere v = some (plain a.before, a.text) := by
  rw [statusAfter, hpivot]
  simp only
  rw [ha]

theorem statusAfter_of_neither (ha : Vocabulary.statusAlias.findAfter v = none) :
    statusAfter anywhere v = anywhere.map fun word => (plain v.after, word) := by
  rw [statusAfter, hpivot]
  simp only
  rw [ha]

end

/-- Without a pivot before the quotation or behind it, the first status behind the verb decides. -/
theorem statusAfter_followed_of_no_pivot (anywhere : Option Text) {v : Found} {y : Text} (q q' : Char)
    (hpv : Vocabulary.pivot.findAfter v = none) (hpy : Vocabulary.pivot.find none (letters y) = none) :
    (∃ r, ∀ inner, (Part.quoted q inner q').Sound →
      statusAfter anywhere (followed v (Part.quoted q inner q') (letters y)) = r) ∨
    (∃ y' word, ∀ inner, (Part.quoted q inner q').Sound →
      statusAfter anywhere (followed v (Part.quoted q inner q') (letters y)) =
        some ((Part.quoted q inner q').between (plain v.after) y', word)) := by
  have has := Vocabulary.statusAlias_stops
  have hnone : ∀ inner, (Part.quoted q inner q').Sound →
      Vocabulary.pivot.findAfter (followed v (Part.quoted q inner q') (letters y)) = none := fun inner hQ => by
    rw [findAfter_followed_of_none Vocabulary.pivot_stops hQ _ hpv, hpy, Option.map_none]
  cases hav : Vocabulary.statusAlias.findAfter v with
  | some a =>
    refine .inl ⟨some (plain a.before, a.text), fun inner hQ => ?_⟩
    rw [statusAfter_of_alias (hnone inner hQ) (findAfter_followed_of_some has hQ _ hav)]
    rfl
  | none =>
    cases hay : Vocabulary.statusAlias.find none (letters y) with
    | some a =>
      refine .inr ⟨plain a.before, a.text, fun inner hQ => ?_⟩
      have hfind := findAfter_followed_of_none has hQ (letters y) hav
      rw [hay, Option.map_some] at hfind
      rw [statusAfter_of_alias (hnone inner hQ) hfind, ← plain_quotation]
      rfl
    | none =>
      have hw : ∀ inner, (Part.quoted q inner q').Sound →
          statusAfter anywhere (followed v (Part.quoted q inner q') (letters y)) =
            anywhere.map fun word => ((Part.quoted q inner q').between (plain v.after) y, word) := fun inner hQ => by
        have hfind := findAfter_followed_of_none has hQ (letters y) hav
        rw [hay, Option.map_none] at hfind
        rw [statusAfter_of_neither (hnone inner hQ) hfind, followed, plain_quotation, plain_letters]
      cases anywhere with
      | none => exact .inl ⟨none, hw⟩
      | some word => exact .inr ⟨y, word, hw⟩

theorem statusAfter_followed (anywhere : Option Text) (v : Found) (y : Text) (q q' : Char) :
    (∃ r, ∀ inner, (Part.quoted q inner q').Sound →
      statusAfter anywhere (followed v (Part.quoted q inner q') (letters y)) = r) ∨
    (∃ y' word, ∀ inner, (Part.quoted q inner q').Sound →
      statusAfter anywhere (followed v (Part.quoted q inner q') (letters y)) =
        some ((Part.quoted q inner q').between (plain v.after) y', word)) := by
  have hps := Vocabulary.pivot_stops
  cases hpv : Vocabulary.pivot.findAfter v with
  | some p =>
    -- the window ends before the quotation; only the status may lie behind it
    obtain ⟨word, hword⟩ :=
      find_text_quotation Vocabulary.statusAlias_stops q q' p.lastChar p.after (letters y)
    refine .inl ⟨(word.or anywhere).map fun word => (plain p.before, word), fun inner hQ => ?_⟩
    rw [statusAfter_of_pivot (findAfter_followed_of_some hps hQ _ hpv)]
    exact congrArg (fun o => (Option.or o anywhere).map fun word => (plain p.before, word)) (hword inner hQ)
  | none =>
    cases hpy : Vocabulary.pivot.find none (letters y) with
    | some p =>
      have hp : ∀ inner, (Part.quoted q inner q').Sound →
          statusAfter anywhere (followed v (Part.quoted q inner q') (letters y)) =
            (((Vocabulary.statusAlias.findAfter p).map Found.text).or anywhere).map fun word =>
              ((Part.quoted q inner q').between (plain v.after) (plain p.before), word) := fun inner hQ => by
        have hfind := findAfter_followed_of_none hps hQ (letters y) hpv
        rw [hpy, Option.map_some] at hfind
        rw [statusAfter_of_pivot hfind, ← plain_quotation]
        rfl
      cases hw : ((Vocabulary.statusAlias.findAfter p).map Found.text).or anywhere with
      | none => exact .inl ⟨none, fun inner hQ => by rw [hp inner hQ, hw]; rfl⟩
      | some word => exact .inr ⟨plain p.before, word, fun inner hQ => by rw [hp inner hQ, hw]; rfl⟩
    | none => exact statusAfter_followed_of_no_pivot anywhere q q' hpv hpy

/-- **The window of a status change** does not depend on what a quotation of the clause holds, or holds the quotation;
and the words of the status never do. -/
theorem statusWindow?_between {x : Text} (hx : Closed x) (y : Text) (q q' : Char) :
    (∃ r, ∀ inner, (Part.quoted q inner q').Sound → statusWindow? ((Part.quoted q inner q').between x y) = r) ∨
    (∃ x' y' word, Closed x' ∧ ∀ inner, (Part.quoted q inner q').Sound →
      statusWindow? ((Part.quoted q inner q').between x y) =
        some ((Part.quoted q inner q').between x' y', word)) := by
  have hvs := Vocabulary.statusVerb_stops
  obtain ⟨anywhere, hany⟩ := find_text_quotation Vocabulary.statusAlias_stops q q' none (letters x) (letters y)
  cases hf : Vocabulary.statusVerb.find none (letters x) with
  | none =>
    refine .inl ⟨(Vocabulary.statusVerb.find none (letters y)).bind (statusAfter anywhere), fun inner hQ => ?_⟩
    rw [statusWindow?_eq, Quote.letters_between hx hQ, hany inner hQ, find_behind_quotation hvs hQ _ hf,
      Option.bind_map]
    rfl
  | some v =>
    have hclosed : Closed (plain v.after) := (Pattern.closed_around hvs hx hf).2
    have hfind : ∀ inner, (Part.quoted q inner q').Sound → statusWindow? ((Part.quoted q inner q').between x y) =
        statusAfter anywhere (followed v (Part.quoted q inner q') (letters y)) := fun inner hQ => by
      rw [statusWindow?_eq, Quote.letters_between hx hQ, hany inner hQ, find_before_quotation hvs hQ _ hf]
      rfl
    rcases statusAfter_followed anywhere v y q q' with ⟨r, hr⟩ | ⟨y', word, hy'⟩
    · exact .inl ⟨r, fun inner hQ => by rw [hfind inner hQ, hr inner hQ]⟩
    · exact .inr ⟨plain v.after, y', word, hclosed, fun inner hQ => by rw [hfind inner hQ, hy' inner hQ]⟩

end Clause
end WatchList
