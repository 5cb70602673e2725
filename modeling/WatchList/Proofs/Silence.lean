import WatchList.Proofs.Finality
import WatchList.Proofs.Phrases
/-!
# Texts in which a pattern hits nothing

A pattern is **silent** on a text in which it has no hit.  Such a text is replaced nowhere, cut nowhere, and nothing is
found in it.

A pattern that minds blanks (`Pattern.Spaced`) begins none of its hits with a space, and does not see from a text what
stands behind it and a space.  So a text behind which it finds something stays silent: what is found is behind it
(`Pattern.Spaced.scan_append`).
-/
namespace WatchList

namespace Token

/-- The same token with other members. -/
def map {α β : Type} (f : α → β) : Token α → Token β
  | .gap a => .gap (f a)
  | .hit a as => .hit (f a) (as.map f)

theorem items_map {α β : Type} (f : α → β) (ts : List (Token α)) :
    (ts.map (map f)).flatMap items = (ts.flatMap items).map f := by
  rw [List.flatMap_map, List.map_flatMap]
  congr 1
  funext tok
  cases tok <;> rfl

theorem items_map_gap {α : Type} (as : List α) : (as.map gap).flatMap items = as := by
  rw [List.flatMap_map]
  exact List.flatMap_singleton' as

end Token

namespace Pattern

variable {p : Pattern}

/-- The pattern has no hit in the text. -/
def Silent (p : Pattern) (t : Text) : Prop := p.tokens t = t.map .gap

instance (p : Pattern) (t : Text) : Decidable (p.Silent t) := inferInstanceAs (Decidable (_ = _))

theorem gaps_of_no_hit {α : Type} {ts : List (Token α)} (h : ∀ a as, Token.hit a as ∉ ts) :
    ts = (ts.flatMap Token.items).map .gap := by
  induction ts with
  | nil => rfl
  | cons tok ts ih =>
    have ih := ih fun a as hmem => h a as (List.mem_cons_of_mem tok hmem)
    cases tok with
    | gap a =>
      rw [List.flatMap_cons, List.map_append, ← ih]
      rfl
    | hit a as => exact absurd List.mem_cons_self (h a as)

theorem silent_of_no_hit {t : Text} (h : ∀ c cs, Token.hit c cs ∉ p.tokens t) : p.Silent t := by
  have hgaps := gaps_of_no_hit h
  rwa [tokens, items_scan] at hgaps

theorem silent_of_occursIn {t : Text} (h : p.occursIn t = false) : p.Silent t := by
  rw [occursIn, Bool.not_eq_false', List.isEmpty_iff] at h
  exact silent_of_no_hit fun c cs hhit => hitsFrom_ne_nil hhit 0 h

theorem Silent.replaceAll_eq {t : Text} (h : p.Silent t) (r : Text) : p.replaceAll r t = t := by
  rw [replaceAll, h, List.flatMap_map]
  exact List.flatMap_singleton' t

/-! ## Letters without quotations -/

def unquoted (t : Text) : List Letter := t.map (⟨·, false⟩)

theorem char_unquoted (t : Text) : (unquoted t).map Letter.char = t := by
  rw [unquoted, List.map_map]
  exact List.map_id t

theorem letters_eq_unquoted {t : Text} (h : ∀ c ∈ t, isQuote c = false) : Quote.letters t = unquoted t :=
  Quote.letters_eq_of_free h

theorem scan_map {α β : Type} (f : β → α) (char : α → Char) (before : Option Char) (bs : List β) :
    p.scan char before (bs.map f) = (p.scan (char ∘ f) before bs).map (Token.map f) := by
  fun_induction p.scan (char ∘ f) before bs with
  | case1 => rw [List.map_nil, scan_nil]; rfl
  | case2 before b bs n hn ih =>
    have htaken : p.taken char before (f b :: bs.map f) = n + 1 := by
      rw [taken, ← List.map_cons, List.map_map]
      exact hn
    rw [List.map_cons, scan_cons_hit htaken, ← List.map_take, ← List.map_drop, List.getLast?_map, List.map_cons, ← ih]
    cases (bs.take n).getLast? <;> rfl
  | case3 before b bs hn ih =>
    have htaken : p.taken char before (f b :: bs.map f) = 0 := by
      rw [taken, ← List.map_cons, List.map_map]
      exact hn
    rw [List.map_cons, scan_cons_gap htaken, List.map_cons, ← ih]
    rfl

theorem scan_unquoted (before : Option Char) (t : Text) :
    p.scan Letter.char before (unquoted t) = (p.scan id before t).map (Token.map (⟨·, false⟩)) :=
  scan_map (⟨·, false⟩) Letter.char before t

theorem ofTokens?_gaps (ls : List Letter) : Found.ofTokens? (ls.map .gap) = none :=
  ofTokens?_eq_none_iff.2 fun l ls' h => by simp at h

theorem map_gaps {α β : Type} (f : α → β) (as : List α) : (as.map Token.gap).map (Token.map f) = (as.map f).map .gap := by
  rw [List.map_map, List.map_map]
  rfl

/-- The first hit in letters without quotations is open. -/
theorem find_unquoted {before : Option Char} {t u : Text} {c : Char} {cs : Text} {ts : List (Token Char)}
    (h : p.scan id before t = u.map .gap ++ .hit c cs :: ts) :
    p.find before (unquoted t) = some ⟨unquoted u, unquoted (c :: cs), unquoted (ts.flatMap Token.items)⟩ := by
  rw [find, scan_unquoted, h, List.map_append, map_gaps, ofTokens?_append_of_none _ (ofTokens?_gaps _),
    Token.items_map_gap, List.map_cons]
  rw [show Token.map (fun c => (⟨c, false⟩ : Letter)) (.hit c cs) = .hit ⟨c, false⟩ (unquoted cs) from rfl,
    Found.ofTokens?, if_neg Bool.false_ne_true, Token.items_map]
  simp [Found.behind, unquoted]

theorem find_of_silent {t : Text} (h : p.Silent t) : p.find none (unquoted t) = none := by
  rw [find, scan_unquoted, ← tokens, h, map_gaps, ofTokens?_gaps]

theorem Silent.cut_eq {t : Text} (h : p.Silent t) (hfree : ∀ c ∈ t, isQuote c = false) : p.cut t = [t] := by
  refine Uncut.cut_eq fun l ls hhit => ?_
  rw [letters_eq_unquoted hfree, scan_unquoted, ← tokens, h, map_gaps] at hhit
  obtain ⟨m, -, hm⟩ := List.mem_map.1 hhit
  cases hm

/-! ## Behind a space -/

/-- The pattern begins no hit with a space, looks behind a space as at the beginning of a text, and does not see from a
text that does not end in a blank whether a space and `rest` follow. -/
structure Spaced (p : Pattern) (rest : Text) : Prop where
  within : p.Within
  skips : p.Skips ' '
  begins : ∀ t, p (some ' ') t = p none t
  hides : ∀ before s, s ≠ [] → s.getLast?.any isBlank = false → p before (s ++ ' ' :: rest) = p before s

namespace Spaced

variable {rest : Text} (hp : p.Spaced rest)
include hp

theorem scan_blank {α : Type} (char : α → Char) (before : Option Char) {x : α} (hx : char x = ' ') (as : List α) :
    p.scan char before (x :: as) = .gap x :: p.scan char none as := by
  have h0 : p.taken char before (x :: as) = 0 := by
    rw [taken, List.map_cons, hx, hp.skips]
    rfl
  rw [scan_cons_gap h0, hx, scan_congr (hp.begins _)]

theorem scan_space (before : Option Char) (t : Text) : p.scan id before (' ' :: t) = .gap ' ' :: p.tokens t :=
  hp.scan_blank id before rfl t

theorem replaceAll_space (r t : Text) : p.replaceAll r (' ' :: t) = ' ' :: p.replaceAll r t := by
  rw [replaceAll, tokens, hp.scan_space]
  rfl

/-- **A text, and what stands behind it and a space, are scanned apart.** -/
theorem scan_append {t : Text} (ht : t.getLast?.any isBlank = false) (before : Option Char) :
    p.scan id before (t ++ ' ' :: rest) = p.scan id before t ++ .gap ' ' :: p.tokens rest := by
  rw [scan_append_of_taken hp.within id before fun before u s hus hs => ?_, hp.scan_space]
  have hlast : s.getLast?.any isBlank = false := by
    rw [← hus, List.getLast?_append] at ht
    cases h : s.getLast? with
    | none => rfl
    | some c => rwa [h] at ht
  rw [taken, taken, List.map_id, List.map_id, hp.hides before s hs hlast]

/-- A silent text between spaces stays silent. -/
theorem scan_between {t : Text} (h : p.Silent t) (ht : t.getLast?.any isBlank = false) (before : Option Char) :
    p.scan id before (' ' :: (t ++ ' ' :: rest)) = (' ' :: (t ++ [' '])).map .gap ++ p.tokens rest := by
  rw [hp.scan_space, tokens, hp.scan_append ht, ← tokens, h, List.map_cons, List.map_append, List.cons_append,
    List.append_assoc]
  rfl

theorem silent_space {t : Text} (h : p.Silent t) : p.Silent (' ' :: t) := by
  rw [Silent, tokens, hp.scan_space, h]
  rfl

/-- **Texts that are written one after the other**, with a comma and a space between, stay silent. -/
theorem silent_joined (hcomma : p.Barrier ',') (hskips : p.Skips ',') {ts : List Text} (h : ∀ t ∈ ts, p.Silent t) :
    p.Silent (Text.joined ", ".toList ts) := by
  fun_induction Text.joined ", ".toList ts with
  | case1 => rw [Silent, tokens, scan_nil]; rfl
  | case2 t => exact h t List.mem_cons_self
  | case3 t ts _ ih =>
    obtain ⟨ht, hts⟩ := List.forall_mem_cons.1 h
    have hspace := hp.silent_space (ih hts)
    have hshape : t ++ ", ".toList ++ Text.joined ", ".toList ts = t ++ ',' :: (' ' :: Text.joined ", ".toList ts) := by
      simp
    rw [Silent, tokens] at ht
    rw [Silent] at hspace
    rw [hshape, Silent, tokens, scan_append_skip hp.within hcomma hskips id none t (x := ',') rfl, ht,
      ← tokens, hspace]
    simp

end Spaced

theorem Spaced.silent_between (hp : p.Spaced []) {t : Text} (h : p.Silent t) (ht : t.getLast?.any isBlank = false) :
    p.Silent (' ' :: (t ++ [' '])) := by
  rw [Silent, tokens, hp.scan_between h ht, tokens, scan_nil, List.append_nil]

/-! ## Which patterns mind blanks -/

theorem KeepsToWords.spaced (hw : p.Within) (hk : p.KeepsToWords) (hs : p.Skips ' ') (rest : Text) : p.Spaced rest where
  within := hw
  skips := hs
  begins _ := hk.begins _ _ (.inl rfl)
  hides before s hne _ := hk.hides before s _ hne (.inr rfl)

theorem KeepsToWords.barrier (hk : p.KeepsToWords) {b : Char} (hb : isWordChar b = false) : p.Barrier b where
  hides before t _ hne := hk.hides before t _ hne (.inr hb)
  begins _ := hk.begins _ _ (.inl hb)

end Pattern
end WatchList
