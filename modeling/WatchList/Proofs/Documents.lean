import WatchList.Proofs.Strings
import WatchList.Toml.Document
/-!
# Documents read back

A document that is written entry by entry, each key with a value on it, has just these entries
(`Document.read_written`).  A text is a value's writing if the reader takes that value off it (`Writes`); strings and
integers have theirs (`writes_string`, `writes_integer`).  No kind of scalar is mistaken for another: digits up to the end
of a line are no date, and no number with a fraction.
-/
namespace WatchList
namespace Toml

open Lexeme

/-! ## Integers -/

namespace Scalar

theorem digitValue?_of_isDigit {c : Char} (hc : c.isDigit = true) : digitValue? 10 c = some (c.toNat - '0'.toNat) := by
  have hbound : c.toNat ≤ '9'.toNat := by
    simp only [Char.isDigit, Bool.and_eq_true, decide_eq_true_eq] at hc
    exact hc.2
  have hsmall : c.toNat - '0'.toNat < 10 := by
    have h9 : '9'.toNat = 57 := rfl
    have h0 : '0'.toNat = 48 := rfl
    omega
  rw [digitValue?, hexValue?, if_pos hc, Option.filter_some, if_pos (decide_eq_true hsmall)]

theorem ne_of_isDigit {c d : Char} (hc : c.isDigit = true) (hd : d.isDigit = false) : c ≠ d := by
  rintro rfl
  rw [hc] at hd
  cases hd

section
variable {ds : Text} (hds : ∀ c ∈ ds, c.isDigit = true)
include hds

/-- Digits are read up to the end of the line. -/
theorem digitRun_line (rest : Text) : digitRun 10 (ds ++ '\n' :: rest) = (ds, '\n' :: rest) := by
  induction ds with
  | nil => rfl
  | cons c ds ih =>
    obtain ⟨hc, hds⟩ := List.forall_mem_cons.1 hds
    have hsome : (digitValue? 10 c).isSome = true := by rw [digitValue?_of_isDigit hc]; rfl
    rw [List.cons_append]
    unfold digitRun
    split
    · next h => exact absurd (List.cons.inj h).1 (ne_of_isDigit hc (by decide))
    · next h =>
      obtain ⟨rfl, rfl⟩ := List.cons.inj h
      rw [if_pos hsome, ih hds]
    · next h => cases h

theorem digits_line (hne : ds ≠ []) (rest : Text) : digits 10 (ds ++ '\n' :: rest) = some (ds, '\n' :: rest) := by
  obtain ⟨c, ds, rfl⟩ := List.exists_cons_of_ne_nil hne
  obtain ⟨hc, hds⟩ := List.forall_mem_cons.1 hds
  rw [List.cons_append, digits, digitValue?_of_isDigit hc, digitRun_line hds]
  rfl

theorem valueOf_digits : valueOf 10 ds = Nat.ofDigitChars 10 ds 0 := by
  have hfrom : ∀ n, ds.foldl (fun n c => 10 * n + (digitValue? 10 c).getD 0) n = Nat.ofDigitChars 10 ds n := by
    induction ds with
    | nil => exact fun n => rfl
    | cons c ds ih =>
      obtain ⟨hc, hds⟩ := List.forall_mem_cons.1 hds
      intro n
      rw [List.foldl_cons, ih hds, digitValue?_of_isDigit hc]
      rfl
  exact hfrom 0

/-- Behind a fixed number of digits there is another digit or the line end. -/
theorem expect_exactly {k n : Nat} {rest t : Text} (h : exactly k (ds ++ '\n' :: rest) = some (n, t)) {d : Char}
    (hd : d.isDigit = false) (hline : d ≠ '\n') : expect d t = none := by
  simp only [exactly] at h
  split at h
  · next hk =>
    obtain ⟨-, rfl⟩ := Prod.mk.inj (Option.some.inj h)
    simp only [Bool.and_eq_true, decide_eq_true_eq, List.all_eq_true] at hk
    have hwithin : k ≤ ds.length := by
      by_cases hle : k ≤ ds.length
      · exact hle
      · -- otherwise the line end is among the digits
        obtain ⟨m, hm⟩ := Nat.exists_eq_add_of_lt (Nat.lt_of_not_le hle)
        have hmem : '\n' ∈ (ds ++ '\n' :: rest).take k := by
          rw [List.take_append, List.mem_append, hm, Nat.add_assoc, Nat.add_sub_cancel_left]
          exact .inr List.mem_cons_self
        cases hk.2 '\n' hmem
    rw [List.drop_append_of_le_length hwithin]
    cases hrest : ds.drop k with
    | nil => exact if_neg (Ne.symm hline)
    | cons c more =>
      have hc : c.isDigit = true := hds c (List.mem_of_mem_drop (hrest ▸ List.mem_cons_self))
      exact if_neg (ne_of_isDigit hc hd)
  · cases h

/-- **Digits up to the end of a line are no date and no time.** -/
theorem datetime_line (rest : Text) : datetime (ds ++ '\n' :: rest) = none := by
  have hdate : date (ds ++ '\n' :: rest) = none := by
    cases h : exactly 4 (ds ++ '\n' :: rest) with
    | none => rw [date, h]; rfl
    | some r => simp [date, h, expect_exactly hds h (show '-'.isDigit = false by decide) (by decide)]
  have htime : time (ds ++ '\n' :: rest) = none := by
    cases h : exactly 2 (ds ++ '\n' :: rest) with
    | none => rw [time, h]; rfl
    | some r => simp [time, h, expect_exactly hds h (show ':'.isDigit = false by decide) (by decide)]
  rw [datetime, hdate, htime]
  rfl

end

section
variable (n : Nat) (rest : Text)

theorem isDigit_ofNat : ∀ c ∈ Text.ofNat n, c.isDigit = true := fun _ hc =>
  Nat.isDigit_of_mem_toDigits (by decide) (by decide) hc

theorem exists_ofNat : ∃ c ds, Text.ofNat n = c :: ds ∧ c.isDigit = true := by
  obtain ⟨c, ds, h⟩ := List.exists_cons_of_ne_nil (Nat.toDigits_ne_nil (n := n) (b := 10))
  exact ⟨c, ds, h, isDigit_ofNat n c (by rw [Text.ofNat, h]; exact List.mem_cons_self)⟩

/-- Only zero is written with a zero in front. -/
theorem eq_zero_of_cons {n : Nat} {rest t : Text} (h : Text.ofNat n ++ rest = '0' :: t) : n = 0 := by
  rw [Text.ofNat] at h
  induction n using Nat.strongRecOn generalizing rest t with
  | _ n ih =>
    by_cases hsmall : n < 10
    · have hdigit : ∀ m < 10, m.digitChar = '0' → m = 0 := by decide
      rw [Nat.toDigits_of_lt_base hsmall] at h
      exact hdigit n hsmall (List.cons.inj h).1
    · rw [Nat.toDigits_of_base_le (by decide) (by omega), List.append_assoc] at h
      have htenth := ih (n / 10) (by omega) h
      omega

theorem ofNat_ne_mark {c : Char} (hc : c ≠ '\n') (t : Text) : Text.ofNat n ++ '\n' :: rest ≠ '0' :: c :: t := by
  intro h
  rw [eq_zero_of_cons h] at h
  exact hc (List.cons.inj (List.cons.inj h).2).1.symm

theorem sign_ofNat : sign (Text.ofNat n ++ '\n' :: rest) = (false, Text.ofNat n ++ '\n' :: rest) := by
  obtain ⟨c, ds, hn, hc⟩ := exists_ofNat n
  rw [hn, List.cons_append]
  unfold sign
  split
  · next h => exact absurd (List.cons.inj h).1 (ne_of_isDigit hc (by decide))
  · next h => exact absurd (List.cons.inj h).1 (ne_of_isDigit hc (by decide))
  · rfl

theorem decimal_ofNat : decimal (Text.ofNat n ++ '\n' :: rest) = some (Text.ofNat n, '\n' :: rest) := by
  have hdigits := digits_line (isDigit_ofNat n) Nat.toDigits_ne_nil rest
  unfold decimal
  split
  · next h =>
    obtain rfl := eq_zero_of_cons h
    rw [← (List.cons.inj h).2]
    rfl
  · exact hdigits

/-- There is no fraction and no exponent behind the digits. -/
theorem float_ofNat : float (Text.ofNat n ++ '\n' :: rest) = none := by
  simp [float, sign_ofNat, decimal_ofNat, fraction, exponent]

theorem integer_ofNat (hn : n ≤ 9223372036854775807) :
    integer (Text.ofNat n ++ '\n' :: rest) = some (.integer n, '\n' :: rest) := by
  have hvalue : valueOf 10 (Text.ofNat n) = n := by
    rw [valueOf_digits (isDigit_ofNat n), Text.ofNat, Nat.ofDigitChars_toDigits (by decide) (by decide)]
  have hfits : fitting n = some (.integer n) := if_pos ⟨by omega, by omega⟩
  unfold integer
  split
  · next h => exact absurd h (ofNat_ne_mark n rest (by decide) _)
  · next h => exact absurd h (ofNat_ne_mark n rest (by decide) _)
  · next h => exact absurd h (ofNat_ne_mark n rest (by decide) _)
  · simp [sign_ofNat, decimal_ofNat, hvalue, hfits]

/-- **A number is read as the integer it is**, up to the end of the line. -/
theorem scalar_ofNat (hn : n ≤ 9223372036854775807) :
    scalar (Text.ofNat n ++ '\n' :: rest) = some (.integer n, '\n' :: rest) := by
  have hinteger := integer_ofNat n rest hn
  have hfloat := float_ofNat n rest
  have hdatetime := datetime_line (isDigit_ofNat n) rest
  have hsign := sign_ofNat n rest
  obtain ⟨c, ds, hdigits, hc⟩ := exists_ofNat n
  rw [hdigits, List.cons_append] at hinteger hfloat hdatetime hsign ⊢
  have hother : ∀ {d : Char} {u v : Text}, d.isDigit = false → c :: u ≠ d :: v := fun hd h =>
    ne_of_isDigit hc hd (List.cons.inj h).1
  have hstring : Lexeme.string (c :: (ds ++ '\n' :: rest)) = none := by
    unfold Lexeme.string
    split
    · next h => exact absurd h (hother (by decide))
    · next h => exact absurd h (hother (by decide))
    · next h => exact absurd h (hother (by decide))
    · next h => exact absurd h (hother (by decide))
    · rfl
  have hboolean : boolean (c :: (ds ++ '\n' :: rest)) = none := by
    unfold boolean
    split
    · next h => exact absurd h (hother (by decide))
    · next h => exact absurd h (hother (by decide))
    · rfl
  have hspecial : special (c :: (ds ++ '\n' :: rest)) = none := by
    unfold special
    rw [hsign]
    split
    · next h => exact absurd h (hother (by decide))
    · next h => exact absurd h (hother (by decide))
    · rfl
  rw [scalar, hstring, hboolean, hspecial, hdatetime, hfloat, hinteger]
  rfl

end

end Scalar

/-! ## Values -/

/-- The text is a writing of the value: on a line it is read as the value, and it begins with no blank. -/
structure Writes (t : Text) (v : Value) : Prop where
  reads : ∀ rest, value (t ++ '\n' :: rest) = some (v, '\n' :: rest)
  unspaced : t.head?.any isSpace = false

theorem value_eq_scalar {c : Char} (harray : c ≠ '[') (htable : c ≠ '\x7b') (t : Text) :
    value (c :: t) = Scalar.scalar (c :: t) := by
  rw [value, limit, valueWithin]
  dsimp only
  split
  · next h => exact absurd (List.cons.inj h).1 harray
  · next h => exact absurd (List.cons.inj h).1 htable
  · rfl

/-- A string begins with a quote. -/
theorem exists_string (t : Text) : ∃ q u, Writer.string t = q :: u ∧ (q = '"' ∨ q = '\'') := by
  unfold Writer.string
  simp only
  split
  · exact ⟨'"', _, rfl, .inl rfl⟩
  split
  · exact ⟨'\'', _, rfl, .inr rfl⟩
  split
  · exact ⟨'"', _, rfl, .inl rfl⟩
  split
  · exact ⟨'\'', _, rfl, .inr rfl⟩
  split
  · exact ⟨'"', _, rfl, .inl rfl⟩
  · exact ⟨'"', _, rfl, .inl rfl⟩

theorem writes_string (t : Text) : Writes (Writer.string t) (.string t) := by
  obtain ⟨q, u, hquote, hq⟩ := exists_string t
  have hplain : q ≠ '[' ∧ q ≠ '\x7b' ∧ isSpace q = false := by rcases hq with rfl | rfl <;> decide
  refine ⟨fun rest => ?_, ?_⟩
  · have hread : Lexeme.string (Writer.string t ++ '\n' :: rest) = some (t, '\n' :: rest) := string_string (by simp) t
    rw [hquote, List.cons_append] at hread ⊢
    rw [value_eq_scalar hplain.1 hplain.2.1, Scalar.scalar, hread]
    rfl
  · rw [hquote]
    exact hplain.2.2

theorem writes_integer {n : Nat} (hn : n ≤ 9223372036854775807) : Writes (Text.ofNat n) (.integer n) := by
  obtain ⟨c, ds, hdigits, hc⟩ := Scalar.exists_ofNat n
  refine ⟨fun rest => ?_, ?_⟩
  · have hread := Scalar.scalar_ofNat n rest hn
    rw [hdigits, List.cons_append] at hread ⊢
    rw [value_eq_scalar (Scalar.ne_of_isDigit hc (by decide)) (Scalar.ne_of_isDigit hc (by decide)), hread]
  · rw [hdigits]
    exact Bool.or_eq_false_iff.2 ⟨beq_eq_false_iff_ne.2 (Scalar.ne_of_isDigit hc (by decide)),
      beq_eq_false_iff_ne.2 (Scalar.ne_of_isDigit hc (by decide))⟩

/-! ## Entries -/

/-- A key that is written as it is. -/
def IsBareKey (k : Text) : Prop := k ≠ [] ∧ ∀ c ∈ k, isBare c = true

instance (k : Text) : Decidable (IsBareKey k) :=
  @instDecidableAnd _ _ _ (List.decidableBAll (fun c => isBare c = true) k)

theorem ne_of_isBare {c d : Char} (hc : isBare c = true) (hd : isBare d = false) : c ≠ d := by
  rintro rfl
  rw [hc] at hd
  cases hd

section
variable {k t : Text} {v : Value} (hk : IsBareKey k)
include hk

theorem IsBareKey.ne_cons {d : Char} (hd : isBare d = false) (rest u : Text) : k ++ rest ≠ d :: u := by
  obtain ⟨c, k, rfl⟩ := List.exists_cons_of_ne_nil hk.1
  exact fun h => ne_of_isBare (hk.2 c List.mem_cons_self) hd (List.cons.inj h).1

theorem skipSpace_bare (rest : Text) : skipSpace (k ++ rest) = k ++ rest := by
  obtain ⟨c, k, rfl⟩ := List.exists_cons_of_ne_nil hk.1
  have hc := hk.2 c List.mem_cons_self
  exact List.dropWhile_cons_of_neg (Bool.eq_false_iff.1 (Bool.or_eq_false_iff.2
    ⟨beq_eq_false_iff_ne.2 (ne_of_isBare hc (by decide)), beq_eq_false_iff_ne.2 (ne_of_isBare hc (by decide))⟩))

theorem simpleKey_bare (rest : Text) : simpleKey (k ++ ' ' :: rest) = some (k, ' ' :: rest) := by
  have htake : (k ++ ' ' :: rest).takeWhile isBare = k := by
    rw [List.takeWhile_append_of_pos hk.2, List.takeWhile_cons_of_neg (by decide), List.append_nil]
  have hdrop : (k ++ ' ' :: rest).dropWhile isBare = ' ' :: rest := by
    rw [List.dropWhile_append_of_pos hk.2, List.dropWhile_cons_of_neg (by decide)]
  unfold simpleKey
  split
  · next h => exact absurd h (hk.ne_cons (by decide) _ _)
  · next h => exact absurd h (hk.ne_cons (by decide) _ _)
  · rw [htake, hdrop, if_neg (by simpa using hk.1)]

theorem key_bare (rest : Text) : key (k ++ ' ' :: '=' :: rest) = some ([k], '=' :: rest) := by
  have hparts : keyParts (k ++ ' ' :: '=' :: rest) = some ([k], '=' :: rest) := by
    have hspace : skipSpace (' ' :: '=' :: rest) = '=' :: rest := rfl
    rw [keyParts, skipSpace_bare hk, simpleKey_bare hk]
    simp only [hspace]
    rfl
  rw [key, hparts]
  rfl

theorem keyValue_bare (ht : Writes t v) (rest : Text) :
    keyValue value (k ++ ' ' :: '=' :: ' ' :: (t ++ '\n' :: rest)) = some (([k], v), '\n' :: rest) := by
  have hspace : skipSpace (' ' :: (t ++ '\n' :: rest)) = t ++ '\n' :: rest := by
    have hfirst : skipSpace (t ++ '\n' :: rest) = t ++ '\n' :: rest := by
      cases t with
      | nil => rfl
      | cons c t => exact List.dropWhile_cons_of_neg (Bool.eq_false_iff.1 ht.unspaced)
    exact (List.dropWhile_cons_of_pos (by decide)).trans hfirst
  rw [keyValue, key_bare hk]
  simp only [hspace, ht.reads, Option.map_some]

/-- A line with an entry is read as the entry, up to its end. -/
theorem line_entry (ht : Writes t v) (rest : Text) : line (Writer.entry k t ++ rest) = some (.entry [k] v, rest) := by
  have hwhole : Writer.entry k t ++ rest = k ++ ' ' :: '=' :: ' ' :: (t ++ '\n' :: rest) := by
    rw [Writer.entry, List.append_assoc, List.append_assoc, List.append_assoc]
    rfl
  have hvalue := keyValue_bare hk ht rest
  have hspace := skipSpace_bare hk (' ' :: '=' :: ' ' :: (t ++ '\n' :: rest))
  have hcontent : restOfLine (k ++ ' ' :: '=' :: ' ' :: (t ++ '\n' :: rest)) = none := by
    obtain ⟨c, k', hcons⟩ := List.exists_cons_of_ne_nil hk.1
    have hc := hk.2 c (hcons ▸ List.mem_cons_self)
    have hcomment : c ≠ '#' := ne_of_isBare hc (by decide)
    rw [restOfLine, hspace, hcons, List.cons_append]
    simp only [List.head?_cons, Option.some.injEq, if_neg hcomment, List.isEmpty_cons, Bool.false_eq_true, if_false]
    exact lineEnd?_eq_none (ne_of_isBare hc (by decide)) (ne_of_isBare hc (by decide)) _
  rw [hwhole, line, hspace]
  split
  · next h => exact absurd h (hk.ne_cons (by decide) _ _)
  · next h => exact absurd h (hk.ne_cons (by decide) _ _)
  · rw [hcontent, hvalue]
    rfl

end

/-- A key with a value and the text of it. -/
structure Written where
  key : Text
  text : Text
  value : Value

namespace Written

/-- The key is written as it is, and the text is a writing of the value. -/
structure Sound (w : Written) : Prop where
  bare : IsBareKey w.key
  writes : Writes w.text w.value

def line (w : Written) : Text := Writer.entry w.key w.text

def entry (w : Written) : Text × Value := (w.key, w.value)

end Written

section
variable {ws : List Written} (hws : ∀ w ∈ ws, w.Sound)
include hws

/-- **Each line of a written document is read as its entry.** -/
theorem lines_written : lines (ws.flatMap Written.line) = some (ws.map fun w => .entry [w.key] w.value) := by
  induction ws with
  | nil => rw [List.flatMap_nil, lines]; rfl
  | cons w ws ih =>
    obtain ⟨hw, hws⟩ := List.forall_mem_cons.1 hws
    have hline : Toml.line (w.line ++ ws.flatMap Written.line) = some (.entry [w.key] w.value, ws.flatMap Written.line) :=
      line_entry hw.bare hw.writes _
    have hne : w.line ≠ [] := List.append_ne_nil_of_right_ne_nil _ (by decide)
    have hshorter : (ws.flatMap Written.line).length < (w.line ++ ws.flatMap Written.line).length := by
      have hpos := List.length_pos_iff.2 hne
      rw [List.length_append]
      omega
    have hsome : (w.line ++ ws.flatMap Written.line).isEmpty = false :=
      List.isEmpty_eq_false_iff.2 (List.append_ne_nil_of_left_ne_nil hne _)
    rw [List.flatMap_cons, lines, hsome, if_neg Bool.false_ne_true]
    simp only [hline, if_pos hshorter, ih hws, Option.map_some, List.map_cons]

omit hws in
/-- New keys are put behind those that are there. -/
theorem entriesFrom_written (hkeys : (ws.map Written.key).Nodup) {es : Entries}
    (hnew : ∀ w ∈ ws, es.lookup w.key = none) :
    Document.entriesFrom [] es (ws.map fun w => .entry [w.key] w.value) = some (es ++ ws.map Written.entry) := by
  induction ws generalizing es with
  | nil => exact congrArg some (List.append_nil es).symm
  | cons w ws ih =>
    obtain ⟨hw, hnew⟩ := List.forall_mem_cons.1 hnew
    obtain ⟨hother, hkeys⟩ := List.nodup_cons.1 hkeys
    have hput : Entries.put w.value [w.key] es = some (es ++ [w.entry]) := by
      rw [Entries.put, hw]
      rfl
    have hnext : ∀ x ∈ ws, (es ++ [w.entry]).lookup x.key = none := by
      intro x hx
      have hne : (x.key == w.key) = false := beq_eq_false_iff_ne.2 fun h => hother (h ▸ List.mem_map_of_mem hx)
      rw [List.lookup_append, hnew x hx, Option.none_or, Written.entry, List.lookup_cons, hne]
      rfl
    rw [List.map_cons, Document.entriesFrom, Entries.within, hput, Option.bind_some, ih hkeys hnext, List.append_assoc]
    rfl

/-- **A written document has the entries that were written.** -/
theorem Document.read_written (hkeys : (ws.map Written.key).Nodup) :
    read (ws.flatMap Written.line) = some (ws.map Written.entry) := by
  have hmark : withoutMark (ws.flatMap Written.line) = ws.flatMap Written.line := by
    cases ws with
    | nil => rfl
    | cons w ws =>
      have hw := (hws w List.mem_cons_self).bare
      obtain ⟨c, k, hk⟩ := List.exists_cons_of_ne_nil hw.1
      have hc : c ≠ '\uFEFF' := ne_of_isBare (hw.2 c (hk ▸ List.mem_cons_self)) (by decide)
      rw [List.flatMap_cons, Written.line, Writer.entry, hk]
      exact if_neg hc
  rw [read, hmark, lines_written hws, Option.bind_some, entriesFrom_written hkeys fun _ _ => rfl, List.nil_append]

end

end Toml
end WatchList
