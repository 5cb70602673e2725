import WatchList.Proofs.Sorting
import WatchList.Proofs.Tidiness
/-!
# Sorted listings

Texts are ordered by their code points, and this order is total (`Text.notAfter_total`, `Text.notAfter_trans`,
`Text.notAfter_antisymm`).  A listing is sorted stably by the lower-case forms of its titles (`Title.Sorts`).  A listing
whose titles all have different lower-case forms can be sorted in one way only (`Title.Sorts.unique`), so it does not
matter in which order it came; and the listings of a catalog that only tools have written to are such
(`Upkeep.sorted_canonical`).
-/
namespace WatchList

/-! ## The order of texts -/

namespace Text

theorem notAfter_cons (c d : Char) (s t : Text) :
    notAfter (c :: s) (d :: t) = true ↔ c.toNat < d.toNat ∨ c = d ∧ notAfter s t = true := by
  simp [notAfter]

theorem notAfter_total : ∀ s t : Text, (notAfter s t || notAfter t s) = true
  | [], _ => rfl
  | _ :: _, [] => rfl
  | c :: s, d :: t => by
    have ih := notAfter_total s t
    rw [Bool.or_eq_true] at ih ⊢
    rw [notAfter_cons, notAfter_cons]
    rcases Nat.lt_trichotomy c.toNat d.toNat with hlt | heq | hgt
    · exact .inl (.inl hlt)
    · have hcd : c = d := Char.toNat_inj.1 heq
      exact ih.imp (fun h => .inr ⟨hcd, h⟩) fun h => .inr ⟨hcd.symm, h⟩
    · exact .inr (.inl hgt)

theorem notAfter_trans : ∀ s t u : Text, notAfter s t = true → notAfter t u = true → notAfter s u = true
  | [], _, _, _, _ => rfl
  | _ :: _, _ :: _, [], _, h => nomatch h
  | c :: s, d :: t, e :: u, hst, htu => by
    rw [notAfter_cons] at hst htu ⊢
    rcases hst with hcd | ⟨rfl, hst⟩ <;> rcases htu with hde | ⟨rfl, htu⟩
    · exact .inl (Nat.lt_trans hcd hde)
    · exact .inl hcd
    · exact .inl hde
    · exact .inr ⟨rfl, notAfter_trans s t u hst htu⟩

theorem notAfter_antisymm : ∀ s t : Text, notAfter s t = true → notAfter t s = true → s = t
  | [], [], _, _ => rfl
  | [], _ :: _, _, h => nomatch h
  | _ :: _, [], h, _ => nomatch h
  | c :: s, d :: t, hst, hts => by
    rw [notAfter_cons] at hst hts
    rcases hst with hcd | ⟨rfl, hst⟩
    · rcases hts with hdc | ⟨rfl, -⟩
      · exact absurd hcd (Nat.lt_asymm hdc)
      · exact absurd hcd (Nat.lt_irrefl _)
    · rcases hts with hcc | ⟨-, hts⟩
      · exact absurd hcc (Nat.lt_irrefl _)
      · rw [notAfter_antisymm s t hst hts]

end Text

/-! ## Sorting by lower-case forms -/

namespace Title

/-- The lower-case form of the first title does not come after that of the second. -/
def notAfter (s t : Text) : Bool := s.lowercase.notAfter t.lowercase

theorem notAfter_total (s t : Text) : (notAfter s t || notAfter t s) = true := Text.notAfter_total s.lowercase t.lowercase

theorem notAfter_trans (s t u : Text) (hst : notAfter s t = true) (htu : notAfter t u = true) : notAfter s u = true :=
  Text.notAfter_trans s.lowercase t.lowercase u.lowercase hst htu

/-- How the titles of a listing are sorted. -/
structure Sorts (titles sorted : List Text) : Prop where
  /-- Every text of the listing that names a title is there, in its normal form, and nothing else. -/
  perm : sorted.Perm (ofAll titles)
  ordered : sorted.Pairwise fun s t => s.lowercase.notAfter t.lowercase = true
  /-- Titles with one lower-case form stand as they are listed. -/
  stable : ∀ small, (sorted.filter fun t => t.lowercase == small) = (ofAll titles).filter fun t => t.lowercase == small

theorem sorts_mergeSort (titles : List Text) : Sorts titles ((ofAll titles).mergeSort notAfter) where
  perm := List.mergeSort_perm _ _
  ordered := List.pairwise_mergeSort notAfter_trans notAfter_total _
  stable small := by
    -- titles with one lower-case form may all come before each other
    have htied : ((ofAll titles).filter fun t => t.lowercase == small).Pairwise fun s t => notAfter s t = true := by
      refine List.pairwise_of_forall_mem_list fun s hs t ht => ?_
      have hsame : s.lowercase = t.lowercase :=
        (eq_of_beq (List.mem_filter.1 hs).2).trans (eq_of_beq (List.mem_filter.1 ht).2).symm
      rw [notAfter, hsame]
      simpa using Text.notAfter_total t.lowercase t.lowercase
    rw [filter_mergeSort notAfter_trans notAfter_total, List.mergeSort_of_pairwise htied]

/-- **Titles with different lower-case forms are sorted in one way only**, however they are listed. -/
theorem Sorts.unique {titles titles' sorted sorted' : List Text} (h : Sorts titles sorted) (h' : Sorts titles' sorted')
    (hperm : titles.Perm titles') (hdistinct : ((ofAll titles).map Text.lowercase).Nodup) : sorted = sorted' := by
  have hnamed : (ofAll titles).Perm (ofAll titles') := (hperm.map normalize).filter _
  have hsame : sorted.Perm sorted' := h.perm.trans (hnamed.trans h'.perm.symm)
  refine hsame.eq_of_pairwise (fun s t hs ht hst hts => ?_) h.ordered h'.ordered
  have hmem : s ∈ ofAll titles := h.perm.mem_iff.1 hs
  have hmem' : t ∈ ofAll titles := h.perm.mem_iff.1 (hsame.mem_iff.2 ht)
  exact List.inj_on_of_nodup_map hdistinct hmem hmem' (Text.notAfter_antisymm _ _ hst hts)

end Title

/-! ## Listings that are sorted -/

theorem nodup_map_listed {β : Type} [DecidableEq β] {key : Text → β} {es : List Entry} (h : (keys key es).Nodup)
    (s : Status) : ((listed s es).map key).Nodup := by
  have hreverse : (es.reverse.map fun e => key e.title).Nodup := by
    rw [List.map_reverse]
    exact List.nodup_reverse.2 h
  rw [listed, List.map_map]
  exact hreverse.sublist (List.filter_sublist.map _)

namespace Upkeep

/-- **A listing is sorted**, upwards and downwards. -/
theorem sorted_of_list {κ : Type} [Keeper κ] {c d : κ} {word : Text} {titles : List Text}
    (hlist : Work.list (Status.ofWord word) c = (.ok titles, d)) :
    ∃ sorted, Title.Sorts titles sorted ∧ Upkeep.sorted word .ascending c = (.ok sorted, d) ∧
      Upkeep.sorted word .descending c = (.ok sorted.reverse, d) := by
  refine ⟨_, Title.sorts_mergeSort titles, ?_, ?_⟩
  all_goals
    rw [Upkeep.sorted, Job.bind_of_ok hlist]
    rfl

theorem sorted_eq_of_perm {κ κ' : Type} [Keeper κ] [Keeper κ'] {c d : κ} {c' d' : κ'} {word : Text}
    {titles titles' : List Text} (hlist : Work.list (Status.ofWord word) c = (.ok titles, d))
    (hlist' : Work.list (Status.ofWord word) c' = (.ok titles', d')) (hperm : titles.Perm titles')
    (hdistinct : ((Title.ofAll titles).map Text.lowercase).Nodup) (order : SortOrder) :
    (Upkeep.sorted word order c).1 = (Upkeep.sorted word order c').1 := by
  obtain ⟨asc, hsorts, hup, hdown⟩ := sorted_of_list hlist
  obtain ⟨asc', hsorts', hup', hdown'⟩ := sorted_of_list hlist'
  obtain rfl := hsorts.unique hsorts' hperm hdistinct
  cases order with
  | ascending => rw [hup, hup']
  | descending => rw [hdown, hdown']

/-- On tidy shelves a sorted listing shows nothing of the order of the writes. -/
theorem sorted_of_tidy {h h' : Shelf} (hh : Shelf.view.Tidy h) {word : Text}
    (hperm : (h.titles (Status.ofWord word)).Perm (h'.titles (Status.ofWord word))) (faults : Faults) (order : SortOrder) :
    (Upkeep.sorted word order ({ holdings := h, faults } : Catalog Shelf)).1 =
      (Upkeep.sorted word order ({ holdings := h', faults } : Catalog Shelf)).1 := by
  cases hrefused : faults.list (Status.ofWord word) with
  | some e =>
    have hlist : ∀ g : Shelf, Work.list (Status.ofWord word) ({ holdings := g, faults } : Catalog Shelf) =
        (.error e, { holdings := g, faults }) := by
      intro g
      change (Catalog.list _ _, _) = _
      rw [Catalog.list, hrefused]
    rw [Upkeep.sorted, Job.bind_of_error (hlist h), Job.bind_of_error (hlist h')]
  | none =>
    have hlist : ∀ g : Shelf, Work.list (Status.ofWord word) ({ holdings := g, faults } : Catalog Shelf) =
        (.ok (g.titles (Status.ofWord word)), { holdings := g, faults }) := by
      intro g
      change (Catalog.list _ _, _) = _
      rw [Catalog.list, hrefused]
      rfl
    have hclean : ∀ t ∈ h.titles (Status.ofWord word), Title.Clean t := (hh.listing _).1
    obtain ⟨es, ⟨rfl, hnodup⟩, -⟩ := hh
    refine sorted_eq_of_perm (hlist h) (hlist h') hperm ?_ order
    rw [Title.ofAll_of_clean hclean]
    exact nodup_map_listed hnodup (Status.ofWord word)

/-- **Sorting a listing is canonical.**  Of any keeper that gives a listing, the ascending result is a sort of it: a
permutation of its titles in normal form, those that name nothing left out, in the order of their lower-case forms by code
points, and as they are listed where those are the same; the descending result is the reverse.  Two listings of the same
titles in different orders have the same result if the lower-case forms of the titles differ.  So where tools have made
two shelves that hold the same titles under a status, whatever was refused on the way, the order of the writes does not
show in a sorted listing. -/
theorem sorted_canonical (word : Text) :
    (∀ (κ : Type) [Keeper κ] (c d : κ) (titles : List Text), Work.list (Status.ofWord word) c = (.ok titles, d) →
      ∃ sorted, Title.Sorts titles sorted ∧ Upkeep.sorted word .ascending c = (.ok sorted, d) ∧
        Upkeep.sorted word .descending c = (.ok sorted.reverse, d)) ∧
    (∀ (κ κ' : Type) [Keeper κ] [Keeper κ'] (c d : κ) (c' d' : κ') (titles titles' : List Text),
      Work.list (Status.ofWord word) c = (.ok titles, d) → Work.list (Status.ofWord word) c' = (.ok titles', d') →
      titles.Perm titles' → ((Title.ofAll titles).map Text.lowercase).Nodup →
      ∀ order, (Upkeep.sorted word order c).1 = (Upkeep.sorted word order c').1) ∧
    ∀ (ts ts' : List (Text × Tool)), (∀ t ∈ ts, t.2.ordinary = true) → (∀ t ∈ ts', t.2.ordinary = true) →
      ∀ refuses refuses' : List Request → Option Error,
      let h := (Tool.afterAll { holdings := {}, refuses } ts).holdings
      let h' := (Tool.afterAll { holdings := {}, refuses := refuses' } ts').holdings
      (h.titles (Status.ofWord word)).Perm (h'.titles (Status.ofWord word)) →
      ∀ (faults : Faults) order, (Upkeep.sorted word order ({ holdings := h, faults } : Catalog Shelf)).1 =
        (Upkeep.sorted word order ({ holdings := h', faults } : Catalog Shelf)).1 := by
  refine ⟨fun κ _ c d titles => sorted_of_list, fun κ κ' _ _ c d c' d' titles titles' => sorted_eq_of_perm, ?_⟩
  intro ts ts' hts hts' refuses refuses' h h' hperm faults order
  have htidy : Shelf.view.Tidy h := Tool.afterAll_tidy hts ⟨[], ⟨rfl, .nil⟩, fun _ he => nomatch he⟩
  exact sorted_of_tidy htidy hperm faults order

/-- Raw titles, two of them with one lower-case form and one without a name; the same raw titles in two orders; and two
histories, one of them with a refused write, that leave the same titles in different orders. -/
theorem sorted_canonical_histories :
    let c : Catalog Shelf := { holdings := ⟨[⟨"«HEAT»".toList, .wanted⟩, ⟨"\"\"".toList, .wanted⟩, ⟨"élan".toList, .wanted⟩,
      ⟨" heat ".toList, .wanted⟩, ⟨"Zoo".toList, .wanted⟩]⟩ }
    let s : Catalog Shelf := { holdings := ⟨[⟨" Zoo".toList, .wanted⟩, ⟨"élan".toList, .wanted⟩]⟩ }
    let t : Fickle Shelf := { holdings := ⟨[⟨"élan".toList, .wanted⟩, ⟨" Zoo".toList, .wanted⟩]⟩, refuses := fun _ => none }
    let ts : List (Text × Tool) := [([], .addMany "élan, Zoo\nHeat".toList)]
    let ts' : List (Text × Tool) := [([], .add "Heat".toList), ([], .interpret "add “Zoo”; add élan; add Dune".toList)]
    let refuses : List Request → Option Error := fun _ => none
    let refuses' : List Request → Option Error := fun asked =>
      if asked.length = 4 then some (.storage "disk full".toList) else none
    let h := (Tool.afterAll { holdings := {}, refuses } ts).holdings
    let h' := (Tool.afterAll { holdings := {}, refuses := refuses' } ts').holdings
    Title.ofAll (c.holdings.titles .wanted) = ["Zoo".toList, "heat".toList, "élan".toList, "HEAT".toList] ∧
      (∃ sorted, Title.Sorts (c.holdings.titles .wanted) sorted ∧
        Upkeep.sorted "wish".toList .ascending c = (.ok sorted, c) ∧
        Upkeep.sorted "wish".toList .descending c = (.ok sorted.reverse, c)) ∧
      (s.holdings.titles .wanted).Perm (t.holdings.titles .wanted) ∧
      ((Title.ofAll (s.holdings.titles .wanted)).map Text.lowercase).Nodup ∧
      (∀ order, (Upkeep.sorted "wish".toList order s).1 = (Upkeep.sorted "wish".toList order t).1) ∧
      (∀ t ∈ ts, t.2.ordinary = true) ∧ (∀ t ∈ ts', t.2.ordinary = true) ∧
      h.titles .wanted = ["Heat".toList, "Zoo".toList, "élan".toList] ∧
      h'.titles .wanted = ["élan".toList, "Zoo".toList, "Heat".toList] ∧
      (h.titles .wanted).Perm (h'.titles .wanted) ∧
      ∀ (faults : Faults) order, (Upkeep.sorted "wish".toList order ({ holdings := h, faults } : Catalog Shelf)).1 =
        (Upkeep.sorted "wish".toList order ({ holdings := h', faults } : Catalog Shelf)).1 := by
  intro c s t ts ts' refuses refuses' h h'
  have hword : Status.ofWord "wish".toList = .wanted := by decide +kernel
  have hmain := sorted_canonical "wish".toList
  rw [hword] at hmain
  obtain ⟨hsorts, hlists, htools⟩ := hmain
  have hperm : (s.holdings.titles .wanted).Perm (t.holdings.titles .wanted) := by decide +kernel
  have hdistinct : ((Title.ofAll (s.holdings.titles .wanted)).map Text.lowercase).Nodup := by decide +kernel
  have hts : ∀ t ∈ ts, t.2.ordinary = true := by decide
  have hts' : ∀ t ∈ ts', t.2.ordinary = true := by decide
  have hh : h.titles .wanted = ["Heat".toList, "Zoo".toList, "élan".toList] := by decide +kernel
  have hh' : h'.titles .wanted = ["élan".toList, "Zoo".toList, "Heat".toList] := by decide +kernel
  have hsame : (h.titles .wanted).Perm (h'.titles .wanted) := by
    rw [hh, hh']
    exact (List.reverse_perm _).symm
  exact ⟨by decide +kernel, hsorts _ c c (c.holdings.titles .wanted) rfl, hperm, hdistinct,
    hlists _ _ s s t (t.noting (.list .wanted)) (s.holdings.titles .wanted) (t.holdings.titles .wanted) rfl rfl hperm
      hdistinct, hts, hts', hh, hh', hsame, htools ts ts' hts hts' refuses refuses' hsame⟩

end Upkeep
end WatchList
