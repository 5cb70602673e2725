import WatchList.Proofs.PlainTitles
/-!
# Lists up to the length of their runs

Some members of a list are **soft**: how many of them stand in a row does not matter, and neither does which ones.  Two
lists are the same up to that when their other members stand against each other one by one, and a run of soft members
stands against a run of soft members (`Stretched`).  The relation is kept by whatever goes through a list member by
member (`Stretched.append`, `Stretched.reverse`, `Stretched.flatMap`), and a member that is not soft has its match
(`Stretched.of_hard`).

For texts the soft members are the blanks that end no line (`isSpacing`), and `Respaced` is the relation.  What a pattern
takes of two such texts are two such texts (`Pattern.IgnoresSpacing`): phrases, tables of phrases and what is built from
them ask of blanks only whether there are any.
-/
namespace WatchList

/-- A run: members that are soft, one or more. -/
def IsSoftRun {α : Type} (soft : α → Bool) (us : List α) : Prop := us ≠ [] ∧ ∀ u ∈ us, soft u = true

/-- The lists have members that are related by `R` one by one, but for runs, which may be any runs. -/
inductive Stretched {α : Type} (soft : α → Bool) (R : α → α → Prop) : List α → List α → Prop
  | nil : Stretched soft R [] []
  | cons {a b : α} {as bs : List α} (head : R a b) (tail : Stretched soft R as bs) : Stretched soft R (a :: as) (b :: bs)
  | run {us vs as bs : List α} (left : IsSoftRun soft us) (right : IsSoftRun soft vs) (tail : Stretched soft R as bs) :
    Stretched soft R (us ++ as) (vs ++ bs)

namespace Stretched

variable {α : Type} {soft : α → Bool} {R : α → α → Prop} {as bs : List α}

theorem refl (hR : ∀ a, R a a) : ∀ as : List α, Stretched soft R as as
  | [] => .nil
  | a :: as => .cons (hR a) (refl hR as)

theorem symm (hR : ∀ a b, R a b → R b a) (h : Stretched soft R as bs) : Stretched soft R bs as := by
  induction h with
  | nil => exact .nil
  | cons head _ ih => exact .cons (hR _ _ head) ih
  | run left right _ ih => exact .run right left ih

theorem append {cs ds : List α} (h : Stretched soft R as bs) (h' : Stretched soft R cs ds) :
    Stretched soft R (as ++ cs) (bs ++ ds) := by
  induction h with
  | nil => exact h'
  | cons head _ ih => exact .cons head ih
  | run left right _ ih =>
    rw [List.append_assoc, List.append_assoc]
    exact .run left right ih

theorem of_run {us vs : List α} (left : IsSoftRun soft us) (right : IsSoftRun soft vs) : Stretched soft R us vs := by
  have h := Stretched.run (R := R) left right .nil
  rwa [List.append_nil, List.append_nil] at h

theorem reverse (h : Stretched soft R as bs) : Stretched soft R as.reverse bs.reverse := by
  have hback : ∀ {us : List α}, IsSoftRun soft us → IsSoftRun soft us.reverse := fun hus =>
    ⟨by simpa using hus.1, fun u hu => hus.2 u (List.mem_reverse.1 hu)⟩
  induction h with
  | nil => exact .nil
  | cons head _ ih =>
    rw [List.reverse_cons, List.reverse_cons]
    exact ih.append (.cons head .nil)
  | run left right _ ih =>
    rw [List.reverse_append, List.reverse_append]
    exact ih.append (of_run (hback left) (hback right))

theorem eq_nil_iff (h : Stretched soft R as bs) : as = [] ↔ bs = [] := by
  cases h with
  | nil => exact Iff.rfl
  | cons => exact iff_of_false (List.cons_ne_nil _ _) (List.cons_ne_nil _ _)
  | run left right =>
    exact iff_of_false (List.append_ne_nil_of_left_ne_nil left.1 _) (List.append_ne_nil_of_left_ne_nil right.1 _)

/-- **A member that is not soft has its match.** -/
theorem of_hard {a : α} (h : Stretched soft R (a :: as) bs) (ha : soft a = false) :
    ∃ b bs', bs = b :: bs' ∧ R a b ∧ Stretched soft R as bs' := by
  generalize hx : a :: as = xs at h
  cases h with
  | nil => cases hx
  | cons head tail =>
    obtain ⟨rfl, rfl⟩ := List.cons.inj hx
    exact ⟨_, _, rfl, head, tail⟩
  | @run us _ _ _ left _ _ =>
    obtain ⟨u, us, rfl⟩ := List.exists_cons_of_ne_nil left.1
    obtain ⟨rfl, -⟩ := List.cons.inj hx
    rw [left.2 a List.mem_cons_self] at ha
    cases ha

/-- What is put in the place of each member, the soft ones giving soft ones. -/
theorem flatMap {β : Type} {soft' : β → Bool} {R' : β → β → Prop} {f : α → List β}
    (hR : ∀ a b, R a b → Stretched soft' R' (f a) (f b)) (hf : ∀ a, soft a = true → IsSoftRun soft' (f a))
    (h : Stretched soft R as bs) : Stretched soft' R' (as.flatMap f) (bs.flatMap f) := by
  have hrun : ∀ {us : List α}, IsSoftRun soft us → IsSoftRun soft' (us.flatMap f) := by
    intro us hus
    obtain ⟨u, us, rfl⟩ := List.exists_cons_of_ne_nil hus.1
    refine ⟨?_, fun x hx => ?_⟩
    · rw [List.flatMap_cons]
      exact List.append_ne_nil_of_left_ne_nil (hf u (hus.2 u List.mem_cons_self)).1 _
    · obtain ⟨v, hv, hx⟩ := List.mem_flatMap.1 hx
      exact (hf v (hus.2 v hv)).2 x hx
  induction h with
  | nil => exact .nil
  | cons head _ ih =>
    rw [List.flatMap_cons, List.flatMap_cons]
    exact (hR _ _ head).append ih
  | run left right _ ih =>
    rw [List.flatMap_append, List.flatMap_append]
    exact .run (hrun left) (hrun right) ih

theorem map {β : Type} {soft' : β → Bool} {R' : β → β → Prop} {f : α → β} (hR : ∀ a b, R a b → R' (f a) (f b))
    (hf : ∀ a, soft a = true → soft' (f a) = true) (h : Stretched soft R as bs) :
    Stretched soft' R' (as.map f) (bs.map f) := by
  rw [List.map_eq_flatMap, List.map_eq_flatMap]
  refine h.flatMap (fun a b hab => .cons (hR a b hab) .nil) fun a ha => ⟨List.cons_ne_nil _ _, ?_⟩
  exact List.forall_mem_singleton.2 (hf a ha)

theorem filter {keep : α → Bool} (hR : ∀ a b, R a b → keep a = keep b) (hsoft : ∀ a, soft a = true → keep a = true)
    (h : Stretched soft R as bs) : Stretched soft R (as.filter keep) (bs.filter keep) := by
  have hrun : ∀ {us : List α}, IsSoftRun soft us → us.filter keep = us := fun hus =>
    List.filter_eq_self.2 fun u hu => hsoft u (hus.2 u hu)
  induction h with
  | nil => exact .nil
  | @cons a b _ _ head _ ih =>
    rw [List.filter_cons, List.filter_cons, hR a b head]
    split
    · exact .cons head ih
    · exact ih
  | run left right _ ih =>
    rw [List.filter_append, List.filter_append, hrun left, hrun right]
    exact .run left right ih

/-- The members of a kind that the lists begin with, the soft ones being of that kind. -/
theorem exists_takeWhile (pick : α → Bool) (hR : ∀ a b, R a b → pick a = pick b)
    (hsoft : ∀ a, soft a = true → pick a = true) (h : Stretched soft R as bs) :
    Stretched soft R (as.takeWhile pick) (bs.takeWhile pick) ∧
      Stretched soft R (as.dropWhile pick) (bs.dropWhile pick) := by
  induction h with
  | nil => exact ⟨.nil, .nil⟩
  | @cons a b _ _ head tail ih =>
    rw [List.takeWhile_cons, List.takeWhile_cons, List.dropWhile_cons, List.dropWhile_cons, hR a b head]
    split
    · exact ⟨.cons head ih.1, ih.2⟩
    · exact ⟨.nil, .cons head tail⟩
  | run left right _ ih =>
    have hleft := fun u hu => hsoft u (left.2 u hu)
    have hright := fun v hv => hsoft v (right.2 v hv)
    rw [List.takeWhile_append_of_pos hleft, List.takeWhile_append_of_pos hright, List.dropWhile_append_of_pos hleft,
      List.dropWhile_append_of_pos hright]
    exact ⟨.run left right ih.1, ih.2⟩

end Stretched

/-! ## Spacing -/

/-- A blank that ends no line. -/
def isSpacing (c : Char) : Bool := isBlank c && c != '\n'

theorem isBlank_of_isSpacing {c : Char} (h : isSpacing c = true) : isBlank c = true := (Bool.and_eq_true_iff.1 h).1

/-- The members of the lists carry the same characters, but for the blanks in a row. -/
abbrev Respaced {α : Type} (char : α → Char) : List α → List α → Prop := Stretched (fun a => isSpacing (char a)) Eq

namespace Respaced

variable {α : Type} {char : α → Char} {as bs : List α}

theorem refl (as : List α) : Respaced char as as := Stretched.refl (fun _ => rfl) as

theorem symm (h : Respaced char as bs) : Respaced char bs as := Stretched.symm (fun _ _ => Eq.symm) h

/-- Either the two lists begin with the same member, which is of the kind, or none of them begins with one. -/
theorem cases_first {pick : Char → Bool} (hpick : ∀ c, isSpacing c = true → pick c = false) (h : Respaced char as bs) :
    (∃ a as' bs', as = a :: as' ∧ bs = a :: bs' ∧ pick (char a) = true ∧ Respaced char as' bs') ∨
      ((as.map char).head?.any pick = false ∧ (bs.map char).head?.any pick = false) := by
  have hrun : ∀ {us : List α}, IsSoftRun (fun a => isSpacing (char a)) us → ∀ as : List α,
      ((us ++ as).map char).head?.any pick = false := by
    intro us hus as
    obtain ⟨u, us, rfl⟩ := List.exists_cons_of_ne_nil hus.1
    exact hpick _ (hus.2 u List.mem_cons_self)
  cases h with
  | nil => exact .inr ⟨rfl, rfl⟩
  | @cons a _ as' bs' head tail =>
    obtain rfl := head
    cases ha : pick (char a) with
    | true => exact .inl ⟨a, as', bs', rfl, rfl, ha, tail⟩
    | false => exact .inr ⟨ha, ha⟩
  | run left right _ => exact .inr ⟨hrun left _, hrun right _⟩

theorem head?_eq (h : Respaced char as bs) {pick : Char → Bool} (hpick : ∀ c, isSpacing c = true → pick c = false) :
    (as.map char).head?.any pick = (bs.map char).head?.any pick := by
  obtain ⟨a, as', bs', rfl, rfl, -, -⟩ | ⟨has, hbs⟩ := h.cases_first hpick
  · rfl
  · rw [has, hbs]

/-- The edge of a word is where it was. -/
theorem touchesWord_head (h : Respaced char as bs) : touchesWord (as.map char).head? = touchesWord (bs.map char).head? :=
  h.head?_eq fun _ hc => Text.isWordChar_blank (isBlank_of_isSpacing hc)

theorem touchesWord_last (h : Respaced char as bs) {before before' : Option Char}
    (hbefore : touchesWord before = touchesWord before') :
    touchesWord ((as.map char).getLast?.or before) = touchesWord ((bs.map char).getLast?.or before') := by
  have hlast : touchesWord (as.map char).getLast? = touchesWord (bs.map char).getLast? := by
    have hhead := touchesWord_head (Stretched.reverse h)
    rwa [List.map_reverse, List.map_reverse, List.head?_reverse, List.head?_reverse] at hhead
  by_cases has : as = []
  · have hbs := (Stretched.eq_nil_iff h).1 has
    rw [has, hbs]
    exact hbefore
  · have hbs : bs ≠ [] := fun hnil => has ((Stretched.eq_nil_iff h).2 hnil)
    have hsome : ∀ {cs : List α}, cs ≠ [] → ∀ o : Option Char, (cs.map char).getLast?.or o = (cs.map char).getLast? := by
      intro cs hcs o
      rw [List.getLast?_eq_some_getLast (by simpa using hcs), Option.some_or]
    rw [hsome has, hsome hbs, hlast]

/-- **The blanks that the lists begin with**, line ends among them, and what follows them. -/
theorem exists_blanks (h : Respaced char as bs) :
    ∃ us as' vs bs', as = us ++ as' ∧ bs = vs ++ bs' ∧ Respaced char us vs ∧ Respaced char as' bs' ∧
      (∀ c ∈ us.map char, isBlank c = true) ∧ (∀ c ∈ vs.map char, isBlank c = true) ∧
      (as'.map char).head?.any isBlank = false ∧ (bs'.map char).head?.any isBlank = false := by
  have hblank : ∀ cs : List α, ∀ c ∈ (cs.takeWhile fun a => isBlank (char a)).map char, isBlank c = true := by
    intro cs c hc
    obtain ⟨a, ha, rfl⟩ := List.mem_map.1 hc
    exact List.all_eq_true.1 List.all_takeWhile a ha
  have hhead : ∀ cs : List α, ((cs.dropWhile fun a => isBlank (char a)).map char).head?.any isBlank = false := by
    intro cs
    have hnot := List.head?_dropWhile_not (fun a => isBlank (char a)) cs
    cases hcs : cs.dropWhile fun a => isBlank (char a) with
    | nil => rfl
    | cons a as => simpa [hcs] using hnot
  obtain ⟨hus, has⟩ := Stretched.exists_takeWhile (fun a => isBlank (char a)) (fun a b hab => by rw [hab])
    (fun a ha => isBlank_of_isSpacing ha) h
  exact ⟨_, _, _, _, List.takeWhile_append_dropWhile.symm, List.takeWhile_append_dropWhile.symm, hus, has, hblank as,
    hblank bs, hhead as, hhead bs⟩

end Respaced

/-! ## What a pattern takes -/

/-- What is taken of the two lists: nothing of both, or a part of each, so that the parts and what follows them are the
same but for spacing. -/
inductive SameFit {α : Type} (char : α → Char) (as bs : List α) : Option Nat → Option Nat → Prop
  | misses : SameFit char as bs none none
  | takes (as₁ bs₁ : List α) {as₂ bs₂ : List α} (left : as = as₁ ++ as₂) (right : bs = bs₁ ++ bs₂)
    (taken : Respaced char as₁ bs₁) (rest : Respaced char as₂ bs₂) :
    SameFit char as bs (some as₁.length) (some bs₁.length)

namespace SameFit

variable {α : Type} {char : α → Char} {as bs us vs : List α} {n m : Option Nat}

/-- More is taken in front. -/
theorem behind (h : SameFit char as bs n m) (hus : Respaced char us vs) :
    SameFit char (us ++ as) (vs ++ bs) (n.map (us.length + ·)) (m.map (vs.length + ·)) := by
  cases h with
  | misses => exact .misses
  | @takes as₁ bs₁ as₂ bs₂ left right taken rest =>
    have hlength : ∀ cs ds : List α, some (cs.length + ds.length) = some (cs ++ ds).length := by simp
    rw [Option.map_some, Option.map_some, hlength, hlength]
    exact .takes _ _ (by rw [left, List.append_assoc]) (by rw [right, List.append_assoc]) (hus.append taken) rest

theorem or {n' m' : Option Nat} (h : SameFit char as bs n m) (h' : SameFit char as bs n' m') :
    SameFit char as bs (n.or n') (m.or m') := by
  cases h with
  | misses => exact h'
  | takes _ _ left right taken rest => exact .takes _ _ left right taken rest

/-- A part that ends inside a word is refused in both. -/
theorem filter_edge (h : SameFit char as bs n m) :
    SameFit char as bs (n.filter fun k => !touchesWord ((as.map char).drop k).head?)
      (m.filter fun k => !touchesWord ((bs.map char).drop k).head?) := by
  cases h with
  | misses => exact .misses
  | @takes as₁ bs₁ as₂ bs₂ left right taken rest =>
    have hdrop : ∀ cs ds : List α, ((cs ++ ds).map char).drop cs.length = ds.map char := by
      intro cs ds
      rw [List.map_append, ← List.length_map char, List.drop_left]
    rw [Option.filter, Option.filter, left, right, hdrop, hdrop, ← rest.touchesWord_head]
    split
    · exact .takes _ _ rfl rfl taken rest
    · exact .misses

end SameFit

namespace Pattern

/-- What the pattern takes does not depend on spacing, nor on what stands before but for whether it is part of a word. -/
def IgnoresSpacing (p : Pattern) : Prop :=
  ∀ (α : Type) (char : α → Char) {before before' : Option Char} {as bs : List α},
    touchesWord before = touchesWord before' → Respaced char as bs →
      SameFit char as bs (p before (as.map char)) (p before' (bs.map char))

/-- The only blanks of the phrase are spaces. -/
def SpacesOnly (w : Text) : Prop := ∀ a ∈ w, a = ' ' ∨ isBlank a = false

instance (w : Text) : Decidable (SpacesOnly w) := List.decidableBAll (fun a => a = ' ' ∨ isBlank a = false) w

section
variable {α : Type} {char : α → Char} {as bs : List α}

/-- **A phrase takes the same but for spacing.** -/
theorem sameFit_reach {w : Text} (hw : SpacesOnly w) (h : Respaced char as bs) :
    SameFit char as bs (reach w (as.map char)) (reach w (bs.map char)) := by
  induction w generalizing as bs with
  | nil => exact .takes [] [] rfl rfl .nil h
  | cons a w ih =>
    obtain ⟨ha, hw⟩ := List.forall_mem_cons.1 hw
    by_cases hspace : a = ' '
    · obtain ⟨us, as', vs, bs', rfl, rfl, hus, has, hublank, hvblank, hahead, hbhead⟩ := h.exists_blanks
      rw [hspace, List.map_append, List.map_append, reach_space hublank hahead, reach_space hvblank hbhead]
      by_cases hnone : us = []
      · obtain rfl := (Stretched.eq_nil_iff hus).1 hnone
        obtain rfl := hnone
        exact .misses
      · have hnone' : vs ≠ [] := fun hnil => hnone ((Stretched.eq_nil_iff hus).2 hnil)
        rw [if_neg (by simpa using hnone), if_neg (by simpa using hnone'), List.length_map, List.length_map]
        exact (ih hw has).behind hus
    · have hnot : ∀ c, isSpacing c = true → (foldLetter c == a) = false := by
        intro c hc
        rw [beq_eq_false_iff_ne]
        rintro rfl
        rw [isBlank_foldLetter, isBlank_of_isSpacing hc] at ha
        exact hspace (ha.resolve_right Bool.noConfusion)
      have hskip : ∀ t : Text, t.head?.any (foldLetter · == a) = false → reach (a :: w) t = none := by
        intro t ht
        cases t with
        | nil => simp [reach, hspace]
        | cons c t => rw [reach_letter hspace, if_neg (beq_eq_false_iff_ne.1 ht)]
      obtain ⟨c, as', bs', rfl, rfl, hc, hrest⟩ | ⟨has, hbs⟩ := h.cases_first hnot
      · rw [List.map_cons, List.map_cons, reach_letter hspace, reach_letter hspace, if_pos (beq_iff_eq.1 hc),
          if_pos (beq_iff_eq.1 hc)]
        exact (ih hw hrest).behind (Respaced.refl [c])
      · rw [hskip _ has, hskip _ hbs]
        exact .misses

theorem phrase_ignoresSpacing {w : Text} (hw : SpacesOnly w) : (phrase w).IgnoresSpacing :=
  fun _ _ _ _ _ _ _ h => sameFit_reach hw h

theorem findSome?_cons_or {β γ : Type} (f : β → Option γ) (b : β) (bs : List β) :
    (b :: bs).findSome? f = (f b).or (bs.findSome? f) := by
  rw [List.findSome?_cons]
  cases f b <;> rfl

theorem word_ignoresSpacing {table : List Text} (ht : ∀ w ∈ table, SpacesOnly w) : (word table).IgnoresSpacing := by
  intro α char before before' as bs hbefore h
  rw [word, word, hbefore]
  split
  · exact .misses
  · induction table with
    | nil => exact .misses
    | cons w table ih =>
      obtain ⟨hw, ht⟩ := List.forall_mem_cons.1 ht
      have hfirst : SameFit char as bs (wholeReach (as.map char) w) (wholeReach (bs.map char) w) :=
        (sameFit_reach hw h).filter_edge
      rw [findSome?_cons_or, findSome?_cons_or]
      exact hfirst.or (ih ht)

theorem one_ignoresSpacing {pick : Char → Bool} (hpick : ∀ c, isSpacing c = true → pick c = false) :
    (one pick).IgnoresSpacing := by
  intro α char before before' as bs _ h
  have hskip : ∀ (before : Option Char) (t : Text), t.head?.any pick = false → one pick before t = none := by
    intro before t ht
    cases t with
    | nil => rfl
    | cons c t => exact if_neg (Bool.eq_false_iff.1 ht)
  obtain ⟨a, as', bs', rfl, rfl, ha, hrest⟩ | ⟨has, hbs⟩ := h.cases_first hpick
  · rw [List.map_cons, List.map_cons, one, one, if_pos ha]
    exact .takes [a] [a] rfl rfl (Respaced.refl [a]) hrest
  · rw [hskip _ _ has, hskip _ _ hbs]
    exact .misses

theorem blanks_ignoresSpacing : blanks.IgnoresSpacing := by
  intro α char before before' as bs _ h
  obtain ⟨us, as', vs, bs', rfl, rfl, hus, has, hublank, hvblank, hahead, hbhead⟩ := h.exists_blanks
  have hrun : ∀ (before : Option Char) {cs ds : List α}, (∀ c ∈ cs.map char, isBlank c = true) →
      (ds.map char).head?.any isBlank = false →
      blanks before ((cs ++ ds).map char) = if cs = [] then none else some cs.length := by
    intro before cs ds hcs hds
    rw [List.map_append, blanks, blankRun_run hcs hds, List.length_map]
    cases cs <;> rfl
  rw [hrun before hublank hahead, hrun before' hvblank hbhead]
  by_cases hnone : us = []
  · rw [if_pos hnone, if_pos ((Stretched.eq_nil_iff hus).1 hnone)]
    exact .misses
  · rw [if_neg hnone, if_neg fun hnil => hnone ((Stretched.eq_nil_iff hus).2 hnil)]
    exact .takes _ _ rfl rfl hus has

namespace IgnoresSpacing

variable {p q : Pattern}

theorem orElse (hp : p.IgnoresSpacing) (hq : q.IgnoresSpacing) : (p.orElse q).IgnoresSpacing :=
  fun α char _ _ _ _ hbefore h => (hp α char hbefore h).or (hq α char hbefore h)

theorem perhaps (hp : p.IgnoresSpacing) : (Pattern.perhaps p).IgnoresSpacing :=
  hp.orElse (q := fun _ _ => some 0) fun _ _ _ _ _ _ _ h => .takes [] [] rfl rfl .nil h

theorem andThen (hp : p.IgnoresSpacing) (hq : q.IgnoresSpacing) : (p.andThen q).IgnoresSpacing := by
  intro α char before before' as bs hbefore h
  have hfirst := hp α char hbefore h
  rw [Pattern.andThen, Pattern.andThen]
  generalize p before (as.map char) = n at hfirst
  generalize p before' (bs.map char) = m at hfirst
  cases hfirst with
  | misses => exact .misses
  | @takes as₁ bs₁ as₂ bs₂ left right taken rest =>
    have hparts : ∀ cs ds : List α, ((cs ++ ds).map char).take cs.length = cs.map char ∧
        ((cs ++ ds).map char).drop cs.length = ds.map char := by
      intro cs ds
      rw [List.map_append, ← List.length_map char, List.take_left, List.drop_left]
      exact ⟨rfl, rfl⟩
    rw [left, right, Option.bind_some, Option.bind_some, (hparts as₁ as₂).1, (hparts as₁ as₂).2, (hparts bs₁ bs₂).1,
      (hparts bs₁ bs₂).2]
    exact (hq α char (taken.touchesWord_last hbefore) rest).behind taken

end IgnoresSpacing
end

/-! ## Scans -/

/-- The pattern takes nothing at a blank that ends no line. -/
def SkipsSpacing (p : Pattern) : Prop := ∀ b, isSpacing b = true → p.Skips b

/-- The phrases begin with a letter, and between their words there are only spaces. -/
def SpacedPhrases (table : List Text) : Prop := ∀ w ∈ table, SpacesOnly w ∧ w.head?.any (!isBlank ·) = true

instance (table : List Text) : Decidable (SpacedPhrases table) :=
  List.decidableBAll (fun w => SpacesOnly w ∧ w.head?.any (!isBlank ·) = true) table

theorem word_skipsSpacing {table : List Text} (ht : SpacedPhrases table) : (word table).SkipsSpacing := by
  intro b hb before v
  refine word_eq_none fun w hw => ?_
  cases w with
  | nil => cases (ht [] hw).2
  | cons a w =>
    have ha : isBlank a = false := by simpa using (ht _ hw).2
    have hspace : a ≠ ' ' := by
      rintro rfl
      cases ha
    rw [reach_letter hspace, if_neg]
    rintro rfl
    rw [isBlank_foldLetter, isBlank_of_isSpacing hb] at ha
    cases ha

/-- Spacing is not seen by the pattern, and not taken for the beginning of what it takes. -/
structure SpacingBlind (p : Pattern) : Prop where
  ignores : p.IgnoresSpacing
  skips : p.SkipsSpacing

theorem word_spacingBlind {table : List Text} (ht : SpacedPhrases table) : (word table).SpacingBlind where
  ignores := word_ignoresSpacing fun w hw => (ht w hw).1
  skips := word_skipsSpacing ht

theorem one_spacingBlind {pick : Char → Bool} (hpick : ∀ c, isSpacing c = true → pick c = false) :
    (one pick).SpacingBlind where
  ignores := one_ignoresSpacing hpick
  skips b hb := one_skips (hpick b hb)

namespace SpacingBlind

variable {p q : Pattern}

theorem orElse (hp : p.SpacingBlind) (hq : q.SpacingBlind) : (p.orElse q).SpacingBlind where
  ignores := hp.ignores.orElse hq.ignores
  skips b hb := (hp.skips b hb).orElse (hq.skips b hb)

theorem andThen (hp : p.SpacingBlind) (hq : q.IgnoresSpacing) : (p.andThen q).SpacingBlind where
  ignores := hp.ignores.andThen hq
  skips b hb := (hp.skips b hb).andThen

end SpacingBlind

end Pattern

/-- The token is a blank between hits that ends no line. -/
def Token.isSpacing {α : Type} (char : α → Char) : Token α → Bool
  | .gap a => WatchList.isSpacing (char a)
  | .hit _ _ => false

/-- The tokens are the same but for spacing inside a hit. -/
inductive Token.Respaced {α : Type} (char : α → Char) : Token α → Token α → Prop
  | gap (a : α) : Token.Respaced char (.gap a) (.gap a)
  | hit (a : α) {as bs : List α} (items : WatchList.Respaced char as bs) :
    Token.Respaced char (.hit a as) (.hit a bs)

namespace Pattern

variable {α : Type} {p : Pattern}

/-- A scan goes through spacing member by member. -/
theorem scan_spacing (hs : p.SkipsSpacing) (char : α → Char) {us : List α} (hus : ∀ u ∈ us, isSpacing (char u) = true)
    (before : Option Char) (as : List α) :
    p.scan char before (us ++ as) = us.map .gap ++ p.scan char ((us.getLast?.map char).or before) as := by
  induction us generalizing before with
  | nil => rfl
  | cons u us ih =>
    obtain ⟨hu, hus⟩ := List.forall_mem_cons.1 hus
    have hmiss : p.taken char before (u :: (us ++ as)) = 0 := by
      rw [taken, List.map_cons, hs _ hu]
      rfl
    rw [List.cons_append, scan_cons_gap hmiss, ih hus, last_cons]
    rfl

/-- At the same member the pattern takes nothing of both lists, or a part of each from that member on. -/
theorem cases_taken (hp : p.SpacingBlind) (char : α → Char) {before before' : Option Char}
    (hbefore : touchesWord before = touchesWord before') (a : α) {as bs : List α} (h : Respaced char as bs) :
    (p.taken char before (a :: as) = 0 ∧ p.taken char before' (a :: bs) = 0) ∨
      ∃ as₁ as₂ bs₁ bs₂, as = as₁ ++ as₂ ∧ bs = bs₁ ++ bs₂ ∧ p.taken char before (a :: as) = as₁.length + 1 ∧
        p.taken char before' (a :: bs) = bs₁.length + 1 ∧ Respaced char as₁ bs₁ ∧ Respaced char as₂ bs₂ := by
  rw [taken, taken]
  cases ha : isSpacing (char a) with
  | true =>
    rw [List.map_cons, List.map_cons, hp.skips _ ha, hp.skips _ ha]
    exact .inl ⟨rfl, rfl⟩
  | false =>
    have hfit := hp.ignores α char hbefore (show Respaced char (a :: as) (a :: bs) from .cons rfl h)
    generalize p before ((a :: as).map char) = n at hfit ⊢
    generalize p before' ((a :: bs).map char) = m at hfit ⊢
    cases hfit with
    | misses => exact .inl ⟨rfl, rfl⟩
    | @takes as₁ bs₁ as₂ bs₂ left right taken rest =>
      cases as₁ with
      | nil =>
        obtain rfl := (Stretched.eq_nil_iff taken).1 rfl
        exact .inl ⟨rfl, rfl⟩
      | cons c as₁ =>
        obtain ⟨rfl, rfl⟩ := List.cons.inj left
        obtain ⟨_, bs₁, rfl, rfl, hafter⟩ := Stretched.of_hard taken ha
        obtain ⟨-, rfl⟩ := List.cons.inj right
        exact .inr ⟨as₁, as₂, bs₁, bs₂, rfl, rfl, rfl, rfl, hafter, rest⟩

/-- **The tokens of two lists that are the same but for spacing** are the same but for spacing. -/
theorem scan_respaced (hp : p.SpacingBlind) (char : α → Char) {before before' : Option Char}
    {as bs : List α} (hbefore : touchesWord before = touchesWord before') (h : Respaced char as bs) :
    Stretched (Token.isSpacing char) (Token.Respaced char) (p.scan char before as) (p.scan char before' bs) := by
  -- on the length of what is left: behind a hit the scan goes on where the hit ends, not one member further
  induction hn : as.length using Nat.strongRecOn generalizing before before' as bs with
  | _ n ih =>
    cases h with
    | nil =>
      rw [scan_nil, scan_nil]
      exact .nil
    | @run us vs as bs left right tail =>
      have hgaps : ∀ {us : List α}, IsSoftRun (fun a => isSpacing (char a)) us →
          IsSoftRun (Token.isSpacing char) (us.map Token.gap) := fun hus =>
        ⟨by simpa using hus.1, fun tok htok => by
          obtain ⟨u, hu, rfl⟩ := List.mem_map.1 htok
          exact hus.2 u hu⟩
      have hedge : touchesWord ((us.getLast?.map char).or before) = touchesWord ((vs.getLast?.map char).or before') := by
        rw [← List.getLast?_map, ← List.getLast?_map]
        exact Respaced.touchesWord_last (Stretched.of_run left right) hbefore
      have hshorter : as.length < n := by
        have hpos := List.length_pos_iff.2 left.1
        rw [← hn, List.length_append]
        omega
      rw [scan_spacing hp.skips char left.2, scan_spacing hp.skips char right.2]
      exact .run (hgaps left) (hgaps right) (ih _ hshorter hedge tail rfl)
    | @cons a _ as bs head tail =>
      obtain rfl := head
      rcases cases_taken hp char hbefore a tail with ⟨has, hbs⟩ | ⟨as₁, as₂, bs₁, bs₂, rfl, rfl, has, hbs, taken, rest⟩
      · rw [scan_cons_gap has, scan_cons_gap hbs]
        exact .cons (.gap a) (ih _ (by rw [← hn]; exact Nat.lt_succ_self _) rfl tail rfl)
      · have hlast : ∀ cs : List α, some (char (cs.getLast?.getD a)) = (cs.map char).getLast?.or (some (char a)) := by
          intro cs
          rw [List.getLast?_map]
          cases cs.getLast? <;> rfl
        have hedge : touchesWord (some (char (as₁.getLast?.getD a))) = touchesWord (some (char (bs₁.getLast?.getD a))) := by
          rw [hlast, hlast]
          exact taken.touchesWord_last rfl
        have hshorter : as₂.length < n := by
          rw [← hn, List.length_cons, List.length_append]
          omega
        rw [scan_cons_hit has, scan_cons_hit hbs, List.take_left, List.take_left, List.drop_left, List.drop_left]
        exact .cons (.hit a taken) (ih _ hshorter hedge rest rfl)

end Pattern

end WatchList
