import WatchList.Proofs.Casing
import WatchList.Proofs.Renaming
import WatchList.Proofs.Repetition
/-!
# Changes of casing in a file

A change of name takes two titles for one if their lower-case forms agree.  A table takes them for one only up to the
case of ASCII letters.  So a title is respelled in its row where no more than ASCII letters change
(`Upkeep.rename_casing`); where another letter changes its case, the old row stays and the new title gets a row of its
own (`Upkeep.rename_casing_twice`).
-/
namespace WatchList

namespace Table

theorem key_eq_of_asciiLower {s t : Text} (h : s.asciiLower = t.asciiLower) : key s = key t := by
  have hzero : (fun c => lowerAscii c != '\x00') = fun c => c != '\x00' :=
    funext fun c => eq_lowerAscii (· != '\x00') (by decide) c
  have hpart : ∀ u : Text, (comparedPart u).asciiLower = comparedPart u.asciiLower := by
    intro u
    rw [comparedPart, comparedPart, Text.asciiLower, Text.asciiLower, List.takeWhile_map, Function.comp_def, hzero]
  rw [key, key, hpart, hpart, h, ← Text.size_asciiLower s, ← Text.size_asciiLower t, h]

/-- The row that is written comes in for the row of its title, if there is one. -/
theorem perm_rows_put {t : Table} (hkeys : t.rows.Pairwise fun r r' => key r.title ≠ key r'.title) (title : Text)
    (status : Status) : (t.put title status).rows.Perm
      (⟨title, status, t.clock, lastRevision t.rows + 1⟩ :: t.rows.filter fun r => key r.title ≠ key title) := by
  have hnewest := (List.mergeSort_perm (t.put title status).rows fun r r' => r'.revision ≤ r.revision).symm
  have hput := newestFirst_put hkeys title status
  rw [newestFirst] at hput
  rw [hput] at hnewest
  exact hnewest.trans (((List.mergeSort_perm t.rows _).filter _).cons _)

theorem length_rows_put (title : Text) (status : Status) (t : Table) :
    (t.put title status).rows.length = t.rows.length + if t.rows.any fun r => same r.title title then 0 else 1 := by
  unfold put
  dsimp only
  split <;> simp

/-- **A title that is written in other letters of its row** comes in for the old spelling. -/
theorem rows_put_same {t : Table} (hkeys : t.rows.Pairwise fun r r' => key r.title ≠ key r'.title) {old new : Text}
    (hone : key old = key new) (hthere : ∃ r ∈ t.rows, key r.title = key old) (status : Status) :
    (t.put new status).rows.length = t.rows.length ∧
      ((t.put new status).rows.filter fun r => r.title = new).map entryOf = [⟨new, status⟩] ∧
      (old ≠ new → ∀ r ∈ (t.put new status).rows, r.title ≠ old) := by
  have hperm := perm_rows_put hkeys new status
  refine ⟨?_, ?_, fun hne x hx hxold => ?_⟩
  · obtain ⟨r, hr, hrold⟩ := hthere
    have hin : (t.rows.any fun r => same r.title new) = true :=
      List.any_eq_true.2 ⟨r, hr, (same_iff _ _).2 (hrold.trans hone)⟩
    rw [length_rows_put, if_pos hin, Nat.add_zero]
  · have hnone : (t.rows.filter fun r => key r.title ≠ key new).filter (fun r => r.title = new) = [] := by
      rw [List.filter_filter, List.filter_eq_nil_iff]
      intro x _ hx
      simp only [ne_eq, decide_not, Bool.and_eq_true, decide_eq_true_eq, Bool.not_eq_true', decide_eq_false_iff_not] at hx
      exact hx.2 (congrArg key hx.1)
    have hfilter := hperm.filter fun r => r.title = new
    rw [List.filter_cons_of_pos (by simp), hnone, List.perm_singleton] at hfilter
    rw [hfilter]
    rfl
  · rcases List.mem_cons.1 (hperm.mem_iff.1 hx) with rfl | hx
    · exact hne hxold.symm
    · have hxkey : key x.title ≠ key new := by simpa using (List.mem_filter.1 hx).2
      exact hxkey (hxold ▸ hone)

/-- The rows of other titles are there after a write. -/
theorem mem_rows_put_of_ne {t : Table} (hkeys : t.rows.Pairwise fun r r' => key r.title ≠ key r'.title) {title : Text}
    (status : Status) {r : Row} (hr : r ∈ t.rows) (hne : key r.title ≠ key title) : r ∈ (t.put title status).rows :=
  (perm_rows_put hkeys title status).mem_iff.2 (List.mem_cons_of_mem _ (List.mem_filter.2 ⟨hr, by simpa using hne⟩))

theorem mem_titles {t : Table} {s : Status} {title : Text} :
    title ∈ t.titles s ↔ ∃ r ∈ t.rows, r.status = s ∧ r.title = title := by
  have hmem : ∀ r, r ∈ newestFirst (t.rows.filter fun r => r.status == s) ↔ r ∈ t.rows ∧ r.status = s := by
    intro r
    rw [newestFirst, (List.mergeSort_perm _ _).mem_iff, List.mem_filter, beq_iff_eq]
  simp only [titles, List.mem_map, hmem, and_assoc]

end Table

namespace Upkeep
variable {t : Table} {old new : Text}

/-- A clean title of a table has a status, whatever casing it is looked up in. -/
theorem exists_findStatus_table {r : Row} (hr : r ∈ t.rows) (hclean : Title.Clean r.title) {raw : Text}
    (hraw : (Title.normalize raw).lowercase = r.title.lowercase) (journal : List Entry) :
    ∃ s, findStatus raw ({ holdings := t, journal } : Catalog Table) = (.ok (some s), { holdings := t, journal }) := by
  have hlist : ∀ s, Work.list s ({ holdings := t, journal } : Catalog Table) =
      (.ok (t.titles s), { holdings := t, journal }) := fun _ => rfl
  rw [findStatus, statusUnder_eq hlist]
  have hfound : (Status.all.find? fun s =>
      (t.titles s).any fun u => (Title.normalize u).lowercase == (Title.normalize raw).lowercase).isSome := by
    rw [List.find?_isSome]
    refine ⟨r.status, by cases r.status <;> decide, List.any_eq_true.2 ⟨r.title, ?_, ?_⟩⟩
    · exact Table.mem_titles.2 ⟨r, hr, rfl, rfl⟩
    · rw [hclean.normal, hraw]
      exact beq_self_eq_true _
  obtain ⟨s, hs⟩ := Option.isSome_iff_exists.1 hfound
  exact ⟨s, by rw [hs]⟩

/-- **A change of casing in a file.**  Let the titles of a table be clean and no two of them one to the table, and let a
clean title that is there be given its new casing.  The answer is the status that the old title was found under.  If the
table takes the two for one, its rows are no more and no fewer, one of them is spelled anew and has this status, and none
has the old spelling.  If it does not, which takes a letter beyond ASCII, the rows of the old title stay as they were,
and the new title has a row besides. -/
theorem rename_casing (hrows : t.rows.Pairwise fun r r' => ¬ Table.same r.title r'.title)
    (hclean : ∀ r ∈ t.rows, Title.Clean r.title) (hold : Title.Clean old) (hnew : Title.Clean new)
    (hcasing : old.lowercase = new.lowercase) (hthere : ∃ r ∈ t.rows, r.title.sameAscii old) (journal : List Entry) :
    let c : Catalog Table := { holdings := t, journal }
    let rows := (rename old new c).2.holdings.rows
    ∃ s, findStatus old c = (.ok (some s), c) ∧ (rename old new c).1 = .ok s ∧
      (Table.same old new → rows.length = t.rows.length ∧
        (rows.filter fun r => r.title = new).map Table.entryOf = [⟨new, s⟩] ∧ (old ≠ new → ∀ r ∈ rows, r.title ≠ old)) ∧
      (¬ Table.same old new → (∀ r ∈ t.rows, Table.same r.title old → r ∈ rows) ∧
        rows.length = t.rows.length + if t.rows.any fun r => Table.same r.title new then 0 else 1) := by
  intro c rows
  obtain ⟨r, hr, hsame⟩ := hthere
  have hascii : r.title.asciiLower = old.asciiLower := by simpa [Text.sameAscii] using hsame
  have hlower : (Title.normalize old).lowercase = r.title.lowercase := by
    rw [hold.normal]
    exact (Text.lowercase_eq_of_asciiLower hascii).symm
  obtain ⟨s, hs⟩ := exists_findStatus_table hr (hclean r hr) hlower journal
  have hnamed : Title.normalize old ≠ [] ∧ Title.normalize new ≠ [] := by
    rw [hold.normal, hnew.normal]
    exact ⟨hold.named, hnew.named⟩
  -- lower-case forms decide that there is one write, whatever the table takes the two titles for
  have hrename := rename_open (by rw [hold.normal]; exact hs) hnamed.1 hnamed.2
  have hws : renameWrites (Title.normalize old) (Title.normalize new) s = [⟨new, s⟩] := by
    rw [hold.normal, hnew.normal, renameWrites, if_pos hcasing]
  rw [Option.getD_some, hws] at hrename
  have hput : rows = (t.put new s).rows := congrArg (fun d => d.2.holdings.rows) hrename
  have hkeys : t.rows.Pairwise fun r r' => Table.key r.title ≠ Table.key r'.title :=
    hrows.imp fun hne heq => hne ((Table.same_iff _ _).2 heq)
  refine ⟨s, hs, congrArg Prod.fst hrename, fun hone => ?_, fun htwo => ⟨fun x hx hxold => ?_, ?_⟩⟩
  · rw [hput]
    exact Table.rows_put_same hkeys ((Table.same_iff _ _).1 hone) ⟨r, hr, Table.key_eq_of_asciiLower hascii⟩ s
  · rw [hput]
    refine Table.mem_rows_put_of_ne hkeys s hx fun heq => htwo ((Table.same_iff _ _).2 ?_)
    exact ((Table.same_iff _ _).1 hxold).symm.trans heq
  · rw [hput, Table.length_rows_put]

/-- Of two letters the ASCII one changes its case: the title is respelled. -/
theorem rename_casing_ascii :
    let t : Table := { rows := [⟨"Dune".toList, .wanted, [], 1⟩, ⟨"éL".toList, .seen, [], 2⟩] }
    let c : Catalog Table := { holdings := t }
    let rows := (rename "éL".toList "él".toList c).2.holdings.rows
    t.rows.Pairwise (fun r r' => ¬ Table.same r.title r'.title) ∧ (∀ r ∈ t.rows, Title.Clean r.title) ∧
      Title.Clean "éL".toList ∧ Title.Clean "él".toList ∧
      Text.lowercase "éL".toList = Text.lowercase "él".toList ∧ (∃ r ∈ t.rows, r.title.sameAscii "éL".toList) ∧
      rows.length = 2 ∧ ∀ r ∈ rows, r.title ≠ "éL".toList := by
  intro t c rows
  have hrows : t.rows.Pairwise fun r r' => ¬ Table.same r.title r'.title := by decide
  have hclean : ∀ r ∈ t.rows, Title.Clean r.title := by decide
  have hold : Title.Clean "éL".toList := by decide
  have hnew : Title.Clean "él".toList := by decide
  have hcasing : Text.lowercase "éL".toList = Text.lowercase "él".toList := by decide
  have hthere : ∃ r ∈ t.rows, r.title.sameAscii "éL".toList := by decide
  obtain ⟨s, -, -, hone, -⟩ := rename_casing hrows hclean hold hnew hcasing hthere []
  obtain ⟨hlength, -, hgone⟩ := hone (by decide)
  exact ⟨hrows, hclean, hold, hnew, hcasing, hthere, hlength, hgone (by decide)⟩

/-- An accented letter changes its case: the title is there twice, in the old spelling too. -/
theorem rename_casing_twice :
    let t : Table := { rows := [⟨"Élite".toList, .wanted, [], 1⟩] }
    let c : Catalog Table := { holdings := t }
    let answer := rename "Élite".toList "élite".toList c
    Title.Clean "Élite".toList ∧ Title.Clean "élite".toList ∧
      Text.lowercase "Élite".toList = Text.lowercase "élite".toList ∧ answer.1 = .ok .wanted ∧
      answer.2.holdings.rows.map Table.entryOf = [⟨"Élite".toList, .wanted⟩, ⟨"élite".toList, .wanted⟩] := by
  decide +kernel

end Upkeep
end WatchList
