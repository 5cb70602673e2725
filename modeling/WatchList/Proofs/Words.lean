import WatchList.Proofs.Hits
/-!
# Tables of single words

The phrases that lead an instruction and join its clauses are single words of Latin letters.  Such a table fits where one
of its words stands from word edge to word edge, in some casing, and nowhere else (`word_eq_some`, `taken_word`).  If the
letters are word characters too, every other character is a barrier for the table (`ProperWords.barrier`).
-/
namespace WatchList

/-- What is the same for both cases of each Latin letter, the long s and the kelvin sign is the same for the two cases
of any character. -/
theorem eq_foldLetter {α : Type} (f : Char → α) (h : ∀ n < 256, f (foldLetter (Char.ofNat n)) = f (Char.ofNat n))
    (hlong : f 's' = f 'ſ') (hkelvin : f 'k' = f '\u212A') (c : Char) : f (foldLetter c) = f c := by
  by_cases hs : c = 'ſ'
  · rw [hs]
    exact hlong
  by_cases hk : c = '\u212A'
  · rw [hk]
    exact hkelvin
  rcases Nat.lt_or_ge c.toNat 256 with hc | hc
  · have hn := h c.toNat hc
    rwa [Char.ofNat_toNat] at hn
  · rw [foldLetter_of_ge hc hs hk]

namespace Pattern

/-- Each phrase is one word of Latin letters. -/
def SingleWords (table : List Text) : Prop :=
  ∀ w ∈ table, w.isEmpty = false ∧ (w.all fun a => a != ' ' && a.toNat < 256) = true

instance (table : List Text) : Decidable (SingleWords table) :=
  List.decidableBAll (fun w : Text => w.isEmpty = false ∧ (w.all fun a => a != ' ' && a.toNat < 256) = true) table

theorem reach_eq_some_iff {w : Text} (hw : ' ' ∉ w) {t : Text} {n : Nat} :
    reach w t = some n ↔ ∃ p r, t = p ++ r ∧ p.length = n ∧ p.map foldLetter = w := by
  induction w generalizing t n with
  | nil =>
    constructor
    · intro h
      obtain rfl := Option.some.inj h
      exact ⟨[], t, rfl, rfl, rfl⟩
    · rintro ⟨p, r, -, rfl, hp⟩
      rw [List.map_eq_nil_iff.1 hp]
      rfl
  | cons a w ih =>
    rw [List.mem_cons, not_or] at hw
    unfold reach
    rw [if_neg (Ne.symm hw.1)]
    constructor
    · intro h
      split at h
      · cases h
      · split at h
        · rename_i c t hc
          obtain ⟨m, hm, rfl⟩ := Option.map_eq_some_iff.1 h
          obtain ⟨p, r, rfl, rfl, rfl⟩ := (ih hw.2).1 hm
          exact ⟨c :: p, r, rfl, Nat.add_comm _ _, by rw [List.map_cons, hc]⟩
        · cases h
    · rintro ⟨p, r, rfl, rfl, hp⟩
      cases p with
      | nil => cases hp
      | cons c p =>
        obtain ⟨hc, hp⟩ := List.cons.inj hp
        have hreach := (ih hw.2).2 ⟨p, r, rfl, rfl, hp⟩
        simp only [List.cons_append]
        rw [if_pos hc, hreach, Option.map_some, List.length_cons, Nat.add_comm]

section
variable {table : List Text} (ht : SingleWords table) {before : Option Char}
include ht

theorem SingleWords.letter {w : Text} (hw : w ∈ table) {a : Char} (ha : a ∈ w) : a ≠ ' ' ∧ a.toNat < 256 := by
  simpa using List.all_eq_true.1 (ht w hw).2 a ha

theorem SingleWords.barrier_space : (word table).Barrier ' ' ∧ (word table).Skips ' ' := by
  have hclear : ∀ w ∈ table, Clear ' ' w := by
    intro w hw a ha
    have hne := (ht.letter hw ha).1
    rw [if_neg hne]
    exact Ne.symm hne
  have hfull : [] ∉ table := fun h => absurd (ht [] h).1 (by decide)
  exact ⟨word_barrier rfl hclear, word_skips rfl hclear hfull⟩

/-- **Where a table of words fits**, a word of it stands from word edge to word edge, in some casing. -/
theorem word_eq_some {t : Text} {n : Nat} (h : word table before t = some n) :
    ∃ p r, t = p ++ r ∧ p.length = n ∧ p.map foldLetter ∈ table ∧ touchesWord before = false ∧
      touchesWord r.head? = false := by
  unfold word at h
  split at h
  · cases h
  · rename_i hbefore
    obtain ⟨w, hw, hwhole⟩ := List.exists_of_findSome?_eq_some h
    obtain ⟨hreach, hedge⟩ := Option.filter_eq_some_iff.1 hwhole
    obtain ⟨p, r, rfl, rfl, rfl⟩ := (reach_eq_some_iff fun hs => (ht.letter hw hs).1 rfl).1 hreach
    rw [List.drop_left] at hedge
    exact ⟨p, r, rfl, rfl, hw, by simpa using hbefore, by simpa using hedge⟩

theorem taken_word {p r : Text} (hp : p.map foldLetter ∈ table) (hbefore : touchesWord before = false)
    (hafter : touchesWord r.head? = false) : (word table).taken id before (p ++ r) ≠ 0 := by
  have hwhole : wholeReach (p ++ r) (p.map foldLetter) = some p.length := by
    have hreach := (reach_eq_some_iff fun hs => (ht.letter hp hs).1 rfl).2 ⟨p, r, rfl, rfl, rfl⟩
    rw [wholeReach, hreach, Option.filter_some, List.drop_left, hafter]
    rfl
  have hsome : (word table before (p ++ r)).isSome = true := by
    rw [word, hbefore, if_neg Bool.false_ne_true, List.isSome_findSome?, List.any_eq_true]
    exact ⟨_, hp, by rw [hwhole]; rfl⟩
  obtain ⟨n, hn⟩ := Option.isSome_iff_exists.1 hsome
  obtain ⟨p', r', -, rfl, hp', -⟩ := word_eq_some ht hn
  rw [taken, List.map_id, hn, Option.getD_some]
  intro h0
  rw [List.length_eq_zero_iff.1 h0] at hp'
  exact absurd (ht _ hp').1 (by decide)

end

/-- What a hit of a table of words hit is a word of it, in some casing. -/
theorem word_of_find {table : List Text} (ht : SingleWords table) {before : Option Char} {ls : List Letter} {f : Found}
    (h : (word table).find before ls = some f) : f.text.map foldLetter ∈ table := by
  obtain ⟨l, rest, hhit, -, hphrase⟩ := hit_mem_of_ofTokens? h
  obtain ⟨u, v, -, hfit⟩ := place_of_hit_mem (word_within table) hhit
  obtain ⟨p, r, hchars, hlength, hp, -⟩ := word_eq_some ht hfit
  rw [List.map_append] at hchars
  have htext : f.text = p := by
    rw [Found.text, hphrase]
    exact List.append_inj_left hchars (by rw [hlength, List.length_map, List.length_cons])
  rwa [htext]

/-! ## Words of word characters -/

/-- Each phrase is one word of Latin letters, all of them word characters. -/
def ProperWords (table : List Text) : Prop := SingleWords table ∧ ∀ w ∈ table, w.all isWordChar = true

instance (table : List Text) : Decidable (ProperWords table) :=
  inferInstanceAs (Decidable (SingleWords table ∧ ∀ w ∈ table, w.all isWordChar = true))

theorem isWordChar_foldLetter (c : Char) : isWordChar (foldLetter c) = isWordChar c :=
  eq_foldLetter isWordChar (by decide +kernel) (by decide +kernel) (by decide +kernel) c

namespace ProperWords

variable {table : List Text} (ht : ProperWords table) {b : Char} (hb : isWordChar b = false)
include ht

theorem nonempty : [] ∉ table := fun h => absurd (ht.1 [] h).1 (by decide)

include hb

theorem clear : ∀ w ∈ table, Clear b w := by
  intro w hw a ha
  have hword : isWordChar a = true := List.all_eq_true.1 (ht.2 w hw) a ha
  have hsp : a ≠ ' ' := by
    rintro rfl
    exact absurd hword (by decide)
  rw [if_neg hsp]
  rintro rfl
  rw [isWordChar_foldLetter, hb] at hword
  cases hword

/-- **What is no word character is a barrier** for a table of words, and begins none of them. -/
theorem barrier : (word table).Barrier b ∧ (word table).Skips b :=
  ⟨word_barrier hb (ht.clear hb), word_skips hb (ht.clear hb) ht.nonempty⟩

end ProperWords

end Pattern

namespace Vocabulary

def verbs : List Text := addVerbs ++ removeVerbs ++ statusVerbs

def verb : Pattern := .word verbs

theorem singleWords_verbs : Pattern.SingleWords verbs := by decide +kernel

theorem singleWords_conjunctions : Pattern.SingleWords conjunctions := by decide +kernel

theorem properWords_conjunctions : Pattern.ProperWords conjunctions := by decide +kernel

end Vocabulary

end WatchList
