import WatchList.Proofs.Documents
import WatchList.Settings
/-!
# Saved settings

Settings that are saved are the settings that are loaded (`Settings.saved_loads`): each of the four entries of the file is
read as the setting it was written for, whatever characters its text has.  An entry that is taken out of the file takes
its setting back to the default and leaves the others as they were saved.  A limit that TOML has no integer for is
refused, and nothing is written.
-/
namespace WatchList
namespace Settings

open Toml

/-- The entries of the settings file: each key with the text of its value. -/
def entries (s : Settings) : List (Text × Text) :=
  [("storage_path".toList, Writer.string s.storagePath), ("log_filter".toList, Writer.string s.logFilter),
   ("pick_strategy".toList, Writer.string s.pickStrategy.code), ("search_limit".toList, Text.ofNat s.searchLimit)]

def keys : List Text :=
  ["storage_path".toList, "log_filter".toList, "pick_strategy".toList, "search_limit".toList]

theorem bare_keys : ∀ k ∈ keys, IsBareKey k := by decide

theorem nodup_keys : keys.Nodup := by decide

/-- The settings file without the entries whose keys are not kept. -/
def fileOf (s : Settings) (keep : Text → Bool) : Text :=
  (s.entries.filter fun e => keep e.1).flatMap fun e => Writer.entry e.1 e.2

/-- The settings with those that are not kept as in `base`. -/
def keeping (keep : Text → Bool) (base s : Settings) : Settings where
  storagePath := if keep "storage_path".toList then s.storagePath else base.storagePath
  logFilter := if keep "log_filter".toList then s.logFilter else base.logFilter
  pickStrategy := if keep "pick_strategy".toList then s.pickStrategy else base.pickStrategy
  searchLimit := if keep "search_limit".toList then s.searchLimit else base.searchLimit

/-! ## What is written -/

theorem render_eq {s : Settings} (h : s.searchLimit ≤ greatestLimit) : s.render = .ok (s.fileOf fun _ => true) := by
  rw [render, if_pos h]
  simp [fileOf, entries]

theorem save_eq {s : Settings} (h : s.searchLimit ≤ greatestLimit) (file : Option ByteArray) :
    s.save file = (.ok (), some (String.ofList (s.fileOf fun _ => true)).toUTF8) := by
  rw [save, render_eq h]

theorem save_refused {s : Settings} (h : greatestLimit < s.searchLimit) (file : Option ByteArray) :
    s.save file = (.error (.config "a number is out of range".toList), file) := by
  rw [save, render, if_neg (Nat.not_le_of_lt h)]

/-- The entries of the settings file with the values that are read from them. -/
def written (s : Settings) : List Written :=
  [⟨"storage_path".toList, Writer.string s.storagePath, .string s.storagePath⟩,
   ⟨"log_filter".toList, Writer.string s.logFilter, .string s.logFilter⟩,
   ⟨"pick_strategy".toList, Writer.string s.pickStrategy.code, .string s.pickStrategy.code⟩,
   ⟨"search_limit".toList, Text.ofNat s.searchLimit, .integer s.searchLimit⟩]

theorem fileOf_eq (s : Settings) (keep : Text → Bool) :
    s.fileOf keep = (s.written.filter fun w => keep w.key).flatMap Written.line := by
  have hentries : s.entries = s.written.map fun w => (w.key, w.text) := rfl
  rw [fileOf, hentries, List.filter_map, List.flatMap_map]
  rfl

theorem sound_written {s : Settings} (h : s.searchLimit ≤ greatestLimit) : ∀ w ∈ s.written, w.Sound := by
  simp only [written, List.forall_mem_cons]
  exact ⟨⟨bare_keys _ (by simp [keys]), writes_string _⟩, ⟨bare_keys _ (by simp [keys]), writes_string _⟩,
    ⟨bare_keys _ (by simp [keys]), writes_string _⟩, ⟨bare_keys _ (by simp [keys]), writes_integer h⟩,
    fun _ hw => absurd hw List.not_mem_nil⟩

/-- **Of the kept part of a settings file, the kept entries are read.** -/
theorem read_fileOf {s : Settings} (h : s.searchLimit ≤ greatestLimit) (keep : Text → Bool) :
    Document.read (s.fileOf keep) = some ((s.written.map Written.entry).filter fun e => keep e.1) := by
  have hkeys : (s.written.map Written.key).Nodup := nodup_keys
  rw [fileOf_eq, Document.read_written (fun w hw => sound_written h w (List.mem_filter.1 hw).1)
    (hkeys.sublist (List.filter_sublist.map _)), List.filter_map]
  rfl

/-! ## What is read -/

theorem lookup_filter (keep : Text → Bool) (k : Text) (es : Entries) :
    (es.filter fun e => keep e.1).lookup k = if keep k then es.lookup k else none := by
  induction es with
  | nil => rw [List.filter_nil, List.lookup_nil, ite_self]
  | cons e es ih =>
    obtain ⟨k', v⟩ := e
    rw [List.filter_cons, List.lookup_cons]
    cases hk : k == k' with
    | true =>
      obtain rfl := beq_iff_eq.1 hk
      cases hkeep : keep k with
      | true => rw [if_pos rfl, List.lookup_cons, hk, if_pos rfl]
      | false => rw [if_neg Bool.false_ne_true, ih, hkeep, if_neg Bool.false_ne_true, if_neg Bool.false_ne_true]
    | false =>
      split
      · rw [List.lookup_cons, hk, ih]
      · exact ih

theorem under_filter {α : Type} (keep : Text → Bool) (k : Text) (of? : Toml.Value → Option α) (base : α) (es : Entries) :
    under (es.filter fun e => keep e.1) k of? base = if keep k then under es k of? base else some base := by
  rw [under, lookup_filter]
  cases keep k <;> rfl

theorem strategyOf?_code (strategy : PickStrategy) : strategyOf? (.string strategy.code) = some strategy := by
  cases strategy <;> decide

theorem ofEntries?_written (keep : Text → Bool) (base s : Settings) :
    ofEntries? base ((s.written.map Written.entry).filter fun e => keep e.1) = some (keeping keep base s) := by
  have hpath : under (s.written.map Written.entry) "storage_path".toList textOf? base.storagePath = some s.storagePath := rfl
  have hlog : under (s.written.map Written.entry) "log_filter".toList textOf? base.logFilter = some s.logFilter := rfl
  have hpick : under (s.written.map Written.entry) "pick_strategy".toList strategyOf? base.pickStrategy =
      some s.pickStrategy := strategyOf?_code s.pickStrategy
  have hlimit : under (s.written.map Written.entry) "search_limit".toList limitOf? base.searchLimit =
      some s.searchLimit := by
    show limitOf? (.integer s.searchLimit) = _
    rw [limitOf?, if_pos (Int.natCast_nonneg _), Int.toNat_natCast]
  have hchoice : ∀ {α : Type} (b : Bool) (x y : α), (if b then some x else some y) = some (if b then x else y) := by
    intro α b x y
    cases b <;> rfl
  rw [ofEntries?, under_filter, under_filter, under_filter, under_filter, hpath, hlog, hpick, hlimit, hchoice, hchoice,
    hchoice, hchoice]
  rfl

theorem load_fileOf {s : Settings} (h : s.searchLimit ≤ greatestLimit) (home : Text) (keep : Text → Bool) :
    load home (some (String.ofList (s.fileOf keep)).toUTF8) none = .ok (keeping keep (default home) s) := by
  have hbytes : ∀ t : String, String.fromUTF8? t.toUTF8 = some t := fun t => dif_pos t.isValidUTF8
  have hparse : parse? (default home) (s.fileOf keep) = some (keeping keep (default home) s) := by
    rw [parse?, read_fileOf h, Option.bind_some, ofEntries?_written]
  rw [load, ofFile, hbytes]
  simp only [String.toList_ofList, hparse]
  rfl

/-- **Saved settings load back, entry by entry.**  Up to the greatest limit, the settings that were saved are loaded, and
from any part of the file the settings of its entries, the others being the defaults; above it, saving is refused and the
file stays as it was. -/
theorem saved_loads (home : Text) (s : Settings) (file : Option ByteArray) :
    (s.searchLimit ≤ greatestLimit →
      s.save file = (.ok (), some (String.ofList (s.fileOf fun _ => true)).toUTF8) ∧
        load home (s.save file).2 none = .ok s ∧
        ∀ keep : Text → Bool,
          load home (some (String.ofList (s.fileOf keep)).toUTF8) none = .ok (keeping keep (default home) s)) ∧
      (greatestLimit < s.searchLimit → ∃ message, s.save file = (.error (.config message), file)) := by
  refine ⟨fun h => ⟨save_eq h file, ?_, load_fileOf h home⟩, fun h => ⟨_, save_refused h file⟩⟩
  rw [save_eq h file, load_fileOf h home]
  rfl

/-- Settings whose texts hold what each form of a string is closed with, and what is written only as an escape. -/
def hostile : Settings where
  storagePath := "\n''\"\"\"'' C:\\data\\".toList
  logFilter := "\x07\r\n\"\"\"\"\"''' \u2028\t\x7F\"\"".toList
  pickStrategy := .first
  searchLimit := greatestLimit

theorem saved_loads_hostile :
    hostile.searchLimit ≤ greatestLimit ∧ load "/home/u".toList (hostile.save none).2 none = .ok hostile ∧
      load "/home/u".toList (some (String.ofList (hostile.fileOf (· == "log_filter".toList))).toUTF8) none =
        .ok { default "/home/u".toList with logFilter := hostile.logFilter } ∧
      greatestLimit < greatestLimit + 1 ∧
      ∃ message, { hostile with searchLimit := greatestLimit + 1 }.save (some ⟨#[97]⟩) =
        (.error (.config message), some ⟨#[97]⟩) := by
  obtain ⟨-, hwhole, hpart⟩ := (saved_loads "/home/u".toList hostile none).1 (by decide)
  exact ⟨by decide, hwhole, hpart (· == "log_filter".toList), by decide,
    (saved_loads "/home/u".toList { hostile with searchLimit := greatestLimit + 1 } (some ⟨#[97]⟩)).2 (by decide)⟩

end Settings
end WatchList
