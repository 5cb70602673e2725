import WatchList.Proofs.Spacing
import WatchList.Proofs.Turns
/-!
# Texts that name no title

A text of quotes and blanks names no title.  Every tool for one title refuses it and asks the catalog for nothing, and it
refuses no other text as empty (`Library.refuses_nameless`).  Only adding goes another way where such a text has a line
end in it: it is taken for a list, and a list of no titles is added without an error (`Library.add_line_end`).
-/
namespace WatchList

namespace Title

/-- There is no title in a list that names none as a whole. -/
theorem ofList_of_nameless {raw : Text} (h : normalize raw = []) : ofList raw = [] := by
  refine List.filter_eq_nil_iff.2 fun t ht => ?_
  obtain ⟨piece, hpiece, rfl⟩ := List.mem_map.1 ht
  have hnone : normalize piece = [] :=
    normalize_eq_nil_iff.2 fun c hc => normalize_eq_nil_iff.1 h c (Text.mem_of_mem_pieces hpiece hc)
  simp [hnone]

/-- The only separator in a text that names no title is a line end. -/
theorem separated_of_nameless {raw : Text} (h : normalize raw = []) : raw.any isSeparator = true ↔ '\n' ∈ raw := by
  rw [List.any_eq_true]
  constructor
  · rintro ⟨c, hc, hsep⟩
    have hplain := normalize_eq_nil_iff.1 h c hc
    obtain rfl | rfl : c = ',' ∨ c = '\n' := by simpa [isSeparator] using hsep
    · exact absurd hplain (by decide)
    · exact hc
  · intro h
    exact ⟨'\n', h, rfl⟩

end Title

namespace Library

theorem put_of_nameless {κ : Type} [Keeper κ] {raw : Text} (h : Title.normalize raw = []) (s : Status) (c : κ) :
    put s raw c = (.error .emptyTitle, c) := by
  rw [put, h]
  rfl

section
variable {σ : Type} [Holdings σ]

/-- Every write that is asked for stands in the journal, whether or not it is refused. -/
theorem journal_write (title : Text) (s : Status) (c : Catalog σ) :
    (Work.write title s c).2.journal = c.journal ++ [⟨title, s⟩] := by
  cases h : c.faults.write title with
  | none => rw [Catalog.write_granted h]
  | some e => rw [Catalog.write_refused h]

/-- Titles in turn end in an error only behind a write that was asked for. -/
theorem journal_of_writeAll_error {s : Status} : ∀ {ts : List Text} {c d : Catalog σ} {e : Error},
    Work.writeAll s ts c = (.error e, d) → c.journal.length < d.journal.length
  | [], _, _, _, h => nomatch h
  | t :: ts, c, d, e, h => by
    rcases Job.of_bind_error h with hwrite | ⟨_, c', hwrite, hrest⟩
    · have hjournal : d.journal = c.journal ++ [⟨t, s⟩] := by rw [← journal_write t s c, hwrite]
      simp [hjournal]
    · have hjournal : c'.journal = c.journal ++ [⟨t, s⟩] := by rw [← journal_write t s c, hwrite]
      have ih := journal_of_writeAll_error hrest
      rw [hjournal, List.length_append] at ih
      exact Nat.lt_of_le_of_lt (Nat.le_add_right _ _) ih

variable {raw : Text}

theorem put_refused_iff (s : Status) (c : Catalog σ) :
    put s raw c = (.error .emptyTitle, c) ↔ Title.normalize raw = [] := by
  refine ⟨fun h => ?_, fun h => put_of_nameless h s c⟩
  by_contra hnamed
  have hjournal := journal_write (Title.normalize raw) s c
  rw [← Job.snd_bind_pure _ fun _ => Title.normalize raw, ← put_eq_of_named hnamed, h] at hjournal
  simpa using congrArg List.length hjournal

theorem add_refused_iff (c : Catalog σ) :
    add raw c = (.error .emptyTitle, c) ↔ Title.normalize raw = [] ∧ '\n' ∉ raw := by
  rw [add]
  split
  · rename_i hlist
    refine iff_of_false (fun h => ?_) fun hone => hone.2 ((Title.separated_of_nameless hone.1).1 hlist)
    rw [Job.bind_pure_eq_error_iff, Bulk.add, Bulk.put, Job.bind_pure_eq_error_iff] at h
    exact Nat.lt_irrefl _ (journal_of_writeAll_error h)
  · rename_i hone
    rw [Job.bind_pure_eq_error_iff, put_refused_iff]
    exact iff_self_and.2 fun hnone hline => hone ((Title.separated_of_nameless hnone).2 hline)

/-- **Texts that name no title are refused**, and nothing is asked of the catalog; no other text is refused as empty in
this way.  Adding alone makes an exception: with a line end in it such a text is a list, of which all the titles, none,
are added. -/
theorem refuses_nameless (raw : Text) (c : Catalog σ) :
    (remove raw c = (.error .emptyTitle, c) ↔ Title.normalize raw = []) ∧
      (markSeen raw c = (.error .emptyTitle, c) ↔ Title.normalize raw = []) ∧
      (markDisliked raw c = (.error .emptyTitle, c) ↔ Title.normalize raw = []) ∧
      (∀ word, setStatus raw word c = (.error .emptyTitle, c) ↔ Title.normalize raw = []) ∧
      (add raw c = (.error .emptyTitle, c) ↔ Title.normalize raw = [] ∧ '\n' ∉ raw) ∧
      (Title.normalize raw = [] → '\n' ∈ raw → add raw c = (.ok (.many 0), c)) := by
  refine ⟨put_refused_iff .disliked c, put_refused_iff .seen c, put_refused_iff .disliked c, fun word => ?_,
    add_refused_iff c, fun hnone hline => ?_⟩
  · exact Job.bind_pure_eq_error_iff.trans (put_refused_iff (Status.ofWord word) c)
  · rw [add, if_pos ((Title.separated_of_nameless hnone).2 hline), Bulk.add, Bulk.put, Title.ofList_of_nameless hnone]
    rfl

end

/-- Quotes, a no-break space and a line end: taken off the wishlist the text is refused, added to it it is not. -/
theorem refuses_nameless_line_end :
    let c : Catalog Shelf := { holdings := ⟨[⟨"Heat".toList, .seen⟩]⟩ }
    let raw := "«\u00A0»\n".toList
    Title.normalize raw = [] ∧ '\n' ∈ raw ∧ remove raw c = (.error .emptyTitle, c) ∧
      add raw c = (.ok (.many 0), c) := by
  intro c raw
  have hnone : Title.normalize raw = [] := by decide
  have hline : '\n' ∈ raw := by decide
  obtain ⟨hremove, -, -, -, -, hadd⟩ := refuses_nameless raw c
  exact ⟨hnone, hline, hremove.2 hnone, hadd hnone hline⟩

/-- A line end alone is added to the wishlist without an error. -/
theorem add_line_end :
    let c : Catalog Shelf := { holdings := {} }
    Title.normalize "\n".toList = [] ∧ (remove "\n".toList c).1 = .error .emptyTitle ∧
      (add "\n".toList c).1 = .ok (.many 0) := by
  decide

end Library
end WatchList
