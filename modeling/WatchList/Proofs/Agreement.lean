import WatchList.Proofs.Casing
import WatchList.Proofs.Revisions
/-!
# Where the two catalogs agree

The catalog in memory takes more titles for one than the catalog in a file does: all that agree in their lower-case
forms, not only in ASCII case.  The same writes leave both with the same listings exactly as long as this makes no
difference (`listings_agree_iff`).
-/
namespace WatchList

namespace Table

theorem comparedPart_of_no_zero {t : Text} (h : '\x00' ∉ t) : comparedPart t = t := by
  rw [comparedPart, ← List.append_nil t, List.takeWhile_append_of_pos, List.takeWhile_nil]
  intro c hc
  simpa using ne_of_mem_of_not_mem hc h

/-- Titles without a zero character are one title for a table exactly when they agree up to ASCII case. -/
theorem same_of_no_zero {s t : Text} (hs : '\x00' ∉ s) (ht : '\x00' ∉ t) : same s t = s.sameAscii t := by
  rw [same, comparedPart_of_no_zero hs, comparedPart_of_no_zero ht, Bool.and_eq_right_iff_imp]
  intro h
  have hlower : s.asciiLower = t.asciiLower := by simpa [Text.sameAscii] using h
  rw [← Text.size_asciiLower s, hlower, Text.size_asciiLower, beq_self_eq_true]

end Table

/-- **The two catalogs agree where their titles do.**  Let a file tell titles apart by ASCII case alone, as it does for
titles without a zero character.  Then the same writes, at whatever times, leave the same listings in a catalog in memory
and in one in a file, for all statuses, if and only if no two of the titles agree in small letters but not in ASCII
case. -/
theorem listings_agree_iff (ws : List (Text × Entry))
    (hnocase : ∀ v ∈ ws, ∀ w ∈ ws, Table.same v.2.title w.2.title = v.2.title.sameAscii w.2.title) :
    (∀ s, Holdings.titles s (Holdings.fill ({} : Shelf) (ws.map Prod.snd)) = Holdings.titles s (Table.putAll {} ws)) ↔
      ¬ ∃ v ∈ ws, ∃ w ∈ ws, v.2.title.lowercase = w.2.title.lowercase ∧
        v.2.title.asciiLower ≠ w.2.title.asciiLower := by
  have hshelf : ∀ s, Holdings.titles s (Holdings.fill ({} : Shelf) (ws.map Prod.snd)) =
      listed s (overwriteAll Text.lowercase [] (ws.map Prod.snd)) := fun s =>
    congrArg (listed s) (Shelf.entries_fill {} (ws.map Prod.snd))
  have hkeys : overwriteAll Table.key [] (ws.map Prod.snd) = overwriteAll Text.asciiLower [] (ws.map Prod.snd) := by
    refine overwriteAll_congr ?_
    rw [List.nil_append]
    simp only [List.forall_mem_map]
    intro v hv w hw
    rw [← Table.same_iff, hnocase v hv w hw]
    simp [Text.sameAscii]
  have htable : ∀ s, Holdings.titles s (Table.putAll {} ws) =
      listed s (overwriteAll Text.asciiLower [] (ws.map Prod.snd)) := fun s =>
    ((Table.records_putAll ws).titles s).trans (by rw [hkeys])
  have hfine : ∀ s t : Text, s.asciiLower = t.asciiLower → s.lowercase = t.lowercase :=
    fun _ _ => Text.lowercase_eq_of_asciiLower
  simp only [hshelf, htable]
  rw [listed_eq_iff (overwriteAll_sublist hfine (List.Sublist.refl []) _), overwriteAll_eq_iff hfine]
  simp only [List.forall_mem_map, not_exists, not_and, not_not]

/-- Writes of *Heat* in two casings keep the catalogs alike; writes of *Été* in two casings do not. -/
theorem listings_agree_iff_accents :
    let heat : List (Text × Entry) := [("9:00".toList, ⟨"Heat".toList, .wanted⟩), ("9:10".toList, ⟨"Dune".toList, .seen⟩),
      ("9:20".toList, ⟨"HEAT".toList, .disliked⟩)]
    let summer : List (Text × Entry) := heat ++ [("9:30".toList, ⟨"Été".toList, .wanted⟩),
      ("9:40".toList, ⟨"ÉTÉ".toList, .seen⟩)]
    (∀ v ∈ summer, ∀ w ∈ summer, Table.same v.2.title w.2.title = v.2.title.sameAscii w.2.title) ∧
      (∀ s, Holdings.titles s (Holdings.fill ({} : Shelf) (heat.map Prod.snd)) =
        Holdings.titles s (Table.putAll {} heat)) ∧
      ¬ ∀ s, Holdings.titles s (Holdings.fill ({} : Shelf) (summer.map Prod.snd)) =
        Holdings.titles s (Table.putAll {} summer) := by
  intro heat summer
  have hzero : ∀ v ∈ summer, '\x00' ∉ v.2.title := by decide
  have hnocase : ∀ v ∈ summer, ∀ w ∈ summer, Table.same v.2.title w.2.title = v.2.title.sameAscii w.2.title :=
    fun v hv w hw => Table.same_of_no_zero (hzero v hv) (hzero w hw)
  refine ⟨hnocase, (listings_agree_iff heat fun v hv w hw =>
    hnocase v (List.mem_append_left _ hv) w (List.mem_append_left _ hw)).2 (by decide), ?_⟩
  rw [listings_agree_iff summer hnocase]
  decide

end WatchList
