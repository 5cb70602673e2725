import WatchList.Toml.Lexeme
import WatchList.Toml.Writer
/-!
# Strings read back

Whatever form a text is written in, the reader takes that text out of it and stops behind the closing quotes
(`Lexeme.string_string`).

Between the quotes every character of the text is spelled by a piece: by itself, or by an escape (`Spelled`).  A piece is
read as its character, so all that can go wrong is the end.  On one line no piece is a bare quote, so the first bare quote
is the end.  Over several lines at most two bare quotes stand in a row, so three are the end, and of five in a row the
first two belong to the text.
-/
namespace WatchList
namespace Toml

open Lexeme Writer

/-! ## Pieces -/

section
variable {close piece : Reader Text} {s t u rest : Text}

theorem Lexeme.upTo_close {r : Text × Text} (h : close t = some r) : upTo close piece t = some r := by
  rw [upTo, h]

theorem Lexeme.upTo_piece {a : Char} (hclose : close (a :: (s ++ t)) = none)
    (hpiece : piece (a :: (s ++ t)) = some (u, t)) :
    upTo close piece (a :: (s ++ t)) = (upTo close piece t).map fun r => (u ++ r.1, r.2) := by
  have hshorter : t.length < (a :: (s ++ t)).length := by
    rw [List.length_cons, List.length_append]
    omega
  rw [upTo, hclose]
  simp only [hpiece, if_pos hshorter]

end

/-- The body of a string spells the text: each character is a piece that is read as this character.  A bare quote `q` may
follow on fewer than `free` of its kind, and `run` of them stand right before the body. -/
inductive Spelled (q : Char) (piece : Reader Text) (free : Nat) : Nat → Text → Text → Prop
  | nil (run : Nat) : Spelled q piece free run [] []
  | quote {run : Nat} {body t : Text} (hrun : run < free) (reads : ∀ rest, piece (q :: rest) = some ([q], rest))
    (tail : Spelled q piece free (run + 1) body t) : Spelled q piece free run (q :: body) (q :: t)
  | other {run : Nat} {a c : Char} (more : Text) {body t : Text} (ha : a ≠ q)
    (reads : ∀ rest, piece (a :: (more ++ rest)) = some ([c], rest)) (tail : Spelled q piece free 0 body t) :
    Spelled q piece free run (a :: (more ++ body)) (c :: t)

namespace Spelled

variable {q : Char} {piece : Reader Text} {run : Nat} {body t rest : Text}

/-- **On one line**: without bare quotes, the body is read up to the quote behind it. -/
theorem upTo_line (h : Spelled q piece 0 run body t) (rest : Text) :
    upTo (closeLine q) piece (body ++ q :: rest) = some (t, rest) := by
  induction h with
  | nil => exact upTo_close (if_pos rfl)
  | quote hrun => exact absurd hrun (Nat.not_lt_zero _)
  | other more ha reads tail ih =>
    rw [List.cons_append, List.append_assoc, upTo_piece (if_neg ha) (reads _), ih]
    rfl

/-! ### Over several lines -/

theorem takeWhile_quotes (k : Nat) (ht : t.head? ≠ some q) :
    (List.replicate k q ++ t).takeWhile (· == q) = List.replicate k q := by
  have hnone : t.takeWhile (· == q) = [] := by
    cases t with
    | nil => rfl
    | cons a t => exact List.takeWhile_cons_of_neg fun ha => ht (congrArg some (beq_iff_eq.1 ha))
  rw [List.takeWhile_append_of_pos fun c hc => beq_iff_eq.2 (List.eq_of_mem_replicate hc), hnone, List.append_nil]

theorem closeLines_inside {k : Nat} (hk : k ≤ 2) (ht : t.head? ≠ some q) :
    closeLines q (List.replicate k q ++ t) = none := by
  rw [closeLines, takeWhile_quotes k ht, List.length_replicate, if_neg (by omega)]

theorem closeLines_end {k : Nat} (hk : k ≤ 2) (hrest : rest.head? ≠ some q) :
    closeLines q (List.replicate k q ++ q :: q :: q :: rest) = some (List.replicate k q, rest) := by
  have hquotes : List.replicate k q ++ q :: q :: q :: rest = List.replicate (k + 3) q ++ rest := by
    rw [← List.replicate_append_replicate, List.append_assoc]
    rfl
  rw [hquotes, closeLines, takeWhile_quotes (k + 3) hrest, List.length_replicate, Nat.min_eq_right (by omega),
    if_pos (by omega), Nat.add_sub_cancel, List.drop_left' List.length_replicate]

/-- The bare quotes that a body begins with are few, and they are all of it or something else follows. -/
theorem quotes_first (h : Spelled q piece 2 run body t) (hrun : run ≤ 2) :
    ∃ k ≤ 2 - run, (body = List.replicate k q ∧ t = List.replicate k q) ∨
      ∃ a more, a ≠ q ∧ body = List.replicate k q ++ a :: more := by
  induction h with
  | nil => exact ⟨0, Nat.zero_le _, .inl ⟨rfl, rfl⟩⟩
  | quote hfree _ _ ih =>
    obtain ⟨k, hk, hbody⟩ := ih hfree
    refine ⟨k + 1, by omega, ?_⟩
    rcases hbody with ⟨rfl, rfl⟩ | ⟨a, more, ha, rfl⟩
    · exact .inl ⟨rfl, rfl⟩
    · exact .inr ⟨a, more, ha, rfl⟩
  | other _ ha => exact ⟨0, Nat.zero_le _, .inr ⟨_, _, ha, rfl⟩⟩

/-- **Over several lines**: with at most two bare quotes in a row, the body is read up to the three quotes behind it. -/
theorem upTo_lines (h : Spelled q piece 2 run body t) (hrun : run ≤ 2) (hrest : rest.head? ≠ some q) :
    upTo (closeLines q) piece (body ++ q :: q :: q :: rest) = some (t, rest) := by
  -- three quotes close the string at once only where nothing but bare quotes is left of the body
  have hends : ∀ {run : Nat} {body t : Text}, Spelled q piece 2 run body t → run ≤ 2 →
      closeLines q (body ++ q :: q :: q :: rest) = some (t, rest) ∨
        body ≠ [] ∧ closeLines q (body ++ q :: q :: q :: rest) = none := by
    intro run body t h hrun
    obtain ⟨k, hk, ⟨rfl, rfl⟩ | ⟨a, more, ha, rfl⟩⟩ := quotes_first h hrun
    · exact .inl (closeLines_end (by omega) hrest)
    · rw [List.append_assoc, List.cons_append]
      exact .inr ⟨by simp, closeLines_inside (by omega) fun hhead => ha (Option.some.inj hhead)⟩
  induction h with
  | nil run =>
    rcases hends (.nil run) hrun with hclose | ⟨hne, -⟩
    · exact upTo_close hclose
    · exact absurd rfl hne
  | @quote run body t hfree reads tail ih =>
    rcases hends (.quote hfree reads tail) hrun with hclose | ⟨-, hclose⟩
    · exact upTo_close hclose
    · refine (upTo_piece (s := []) (t := body ++ q :: q :: q :: rest) hclose (reads _)).trans ?_
      rw [ih hfree]
      rfl
  | other more ha reads tail ih =>
    rcases hends (.other more ha reads tail) hrun with hclose | ⟨-, hclose⟩
    · exact upTo_close hclose
    · rw [List.cons_append, List.append_assoc] at hclose ⊢
      rw [upTo_piece hclose (reads _), ih (Nat.zero_le _)]
      rfl

end Spelled

/-! ## Characters -/

theorem isPrintable_of_not_needsEscape {c : Char} (h : needsEscape c = false) (hline : c ≠ '\n') :
    isPrintable c = true := by
  obtain ⟨hcontrol, hdelete⟩ := Bool.or_eq_false_iff.1 h
  rw [isPrintable, Bool.or_eq_true, beq_iff_eq, Bool.and_eq_true, decide_eq_true_eq, bne_iff_ne]
  by_cases htab : c = '\t'
  · exact .inl htab
  · refine .inr ⟨?_, beq_eq_false_iff_ne.1 hdelete⟩
    simpa [htab, hline, Char.not_lt] using hcontrol

/-- The backslash before the character ends no line. -/
def KeepsLine (a : Char) : Prop := isSpace a = false ∧ a ≠ '\n' ∧ a ≠ '\r'

instance (a : Char) : Decidable (KeepsLine a) := inferInstanceAs (Decidable (isSpace a = false ∧ a ≠ '\n' ∧ a ≠ '\r'))

theorem toNat_of_needsEscape {c : Char} (h : needsEscape c = true) : c.toNat < 128 := by
  by_cases hcontrol : c < ' '
  · exact Nat.lt_trans (UInt32.lt_iff_toNat_lt.1 (Char.lt_def.1 hcontrol)) (by decide)
  · rw [needsEscape, decide_eq_false hcontrol, Bool.false_and, Bool.false_and, Bool.false_or, beq_iff_eq] at h
    rw [h]
    decide

/-- The escape of a character by its number is read as the character. -/
theorem escape_hex4 {c : Char} (h : needsEscape c = true) (rest : Text) :
    Lexeme.escape ('u' :: (hex4 c ++ rest)) = some ([c], rest) := by
  have hhex : ∀ n < 128, needsEscape (Char.ofNat n) = true →
      (hex4 (Char.ofNat n)).length = 4 ∧ scalar? (hex4 (Char.ofNat n)) = some [Char.ofNat n] := by decide +kernel
  obtain ⟨hlength, hscalar⟩ := hhex c.toNat (toNat_of_needsEscape h) (by rwa [Char.ofNat_toNat])
  rw [Char.ofNat_toNat] at hlength hscalar
  rw [Lexeme.escape, if_pos (by rw [List.length_append]; omega), ← hlength, List.take_left, List.drop_left, hscalar]
  rfl

/-- **The escape of a character that has one** is read as the character. -/
theorem escape_of_escape? {severalLines : Bool} {c : Char} {e : Text} (h : escape? severalLines c = some e) :
    ∃ a more, e = '\\' :: a :: more ∧ KeepsLine a ∧ ∀ rest, Lexeme.escape (a :: (more ++ rest)) = some ([c], rest) := by
  have hletter : ∀ a : Char, some ['\\', a] = some e → KeepsLine a →
      (∀ rest, Lexeme.escape (a :: rest) = some ([c], rest)) → ∃ a more, e = '\\' :: a :: more ∧ KeepsLine a ∧
        ∀ rest, Lexeme.escape (a :: (more ++ rest)) = some ([c], rest) :=
    fun a he ha hread => ⟨a, [], (Option.some.inj he).symm, ha, hread⟩
  unfold escape? at h
  split at h
  · next hc => exact hletter 'b' h (by decide) fun _ => by rw [hc]; rfl
  split at h
  · next hc => exact hletter 't' h (by decide) fun _ => by rw [hc]; rfl
  split at h
  · next hc =>
    split at h
    · cases h
    · exact hletter 'n' h (by decide) fun _ => by rw [hc]; rfl
  split at h
  · next hc => exact hletter 'f' h (by decide) fun _ => by rw [hc]; rfl
  split at h
  · next hc => exact hletter 'r' h (by decide) fun _ => by rw [hc]; rfl
  split at h
  · next hc => exact hletter '\\' h (by decide) fun _ => by rw [hc]; rfl
  split at h
  · next hc => exact ⟨'u', hex4 c, (Option.some.inj h).symm, by decide, escape_hex4 hc⟩
  · cases h

theorem of_escape?_none {severalLines : Bool} {c : Char} (h : escape? severalLines c = none) :
    c ≠ '\\' ∧ (severalLines = true ∧ c = '\n' ∨ c ≠ '\n' ∧ isPrintable c = true) := by
  unfold escape? at h
  split at h
  · cases h
  split at h
  · cases h
  split at h
  · next hc =>
    split at h
    · next hseveral => exact ⟨by rw [hc]; decide, .inl ⟨hseveral, hc⟩⟩
    · cases h
  next hline =>
  split at h
  · cases h
  split at h
  · cases h
  split at h
  · cases h
  next hbackslash =>
  split at h
  · cases h
  next hplain => exact ⟨hbackslash, .inr ⟨hline, isPrintable_of_not_needsEscape (Bool.not_eq_true _ ▸ hplain) hline⟩⟩

/-! ## Bodies -/

/-- The body in double quotes spells the text, for a reader that takes quotes, escapes and plain characters. -/
theorem spelled_escaped {severalLines : Bool} {free : Nat} {piece : Reader Text}
    (hquote : 0 < free → ∀ rest, piece ('"' :: rest) = some (['"'], rest))
    (hescape : ∀ a rest, KeepsLine a → piece ('\\' :: a :: rest) = Lexeme.escape (a :: rest))
    (hplain : ∀ c rest, c ≠ '"' → c ≠ '\\' → (severalLines = true ∧ c = '\n' ∨ c ≠ '\n' ∧ isPrintable c = true) →
      piece (c :: rest) = some ([c], rest)) (run : Nat) (t : Text) :
    Spelled '"' piece free run (escaped severalLines free run t) t := by
  induction t generalizing run with
  | nil => exact .nil run
  | cons c t ih =>
    rw [escaped]
    split
    · next hc =>
      obtain rfl := hc
      split
      · next hfree => exact .quote hfree (hquote (Nat.zero_lt_of_lt hfree)) (ih (run + 1))
      · exact .other ['"'] (by decide) (fun rest => hescape '"' rest (by decide)) (ih 0)
    · next hc =>
      cases hesc : escape? severalLines c with
      | some e =>
        obtain ⟨a, more, rfl, ha, hread⟩ := escape_of_escape? hesc
        exact .other (a :: more) (by decide) (fun rest => (hescape a _ ha).trans (hread rest)) (ih 0)
      | none =>
        obtain ⟨hbackslash, hshown⟩ := of_escape?_none hesc
        exact .other [] hc (fun rest => hplain c rest hc hbackslash hshown) (ih 0)

theorem le_longestRun (q : Char) (run : Nat) (t : Text) : run ≤ longestRun q run t := by
  induction t generalizing run with
  | nil => exact Nat.le_refl run
  | cons c t ih =>
    rw [longestRun]
    split
    · exact Nat.le_of_succ_le (ih (run + 1))
    · exact Nat.le_max_left _ _

/-- The body in single quotes is the text, and spells it if the quotes in it are few. -/
theorem spelled_literal {q : Char} {free : Nat} {piece : Reader Text}
    (hquote : 0 < free → ∀ rest, piece (q :: rest) = some ([q], rest)) {run : Nat} {t : Text}
    (hplain : ∀ c ∈ t, c ≠ q → ∀ rest, piece (c :: rest) = some ([c], rest)) (hruns : longestRun q run t ≤ free) :
    Spelled q piece free run t t := by
  induction t generalizing run with
  | nil => exact .nil run
  | cons c t ih =>
    obtain ⟨hc, ht⟩ := List.forall_mem_cons.1 hplain
    rw [longestRun] at hruns
    split at hruns
    · next hq =>
      obtain rfl := hq
      have hfree : run < free := Nat.lt_of_lt_of_le (le_longestRun c (run + 1) t) hruns
      exact .quote hfree (hquote (Nat.zero_lt_of_lt hfree)) (ih ht hruns)
    · next hq =>
      exact .other [] hq (hc hq) (ih ht (Nat.le_trans (Nat.le_max_right _ _) hruns))

/-! ## The four forms -/

theorem lineEnd?_eq_none {c : Char} (hline : c ≠ '\n') (hreturn : c ≠ '\r') (t : Text) : lineEnd? (c :: t) = none := by
  unfold lineEnd?
  split
  · next h => exact absurd (List.cons.inj h).1 hline
  · next h => exact absurd (List.cons.inj h).1 hreturn
  · rfl

theorem ne_return_of_isPrintable {c : Char} (h : isPrintable c = true) : c ≠ '\r' := by
  rintro rfl
  cases h

theorem basicPiece_plain {c : Char} (hquote : c ≠ '"') (hbackslash : c ≠ '\\') (hc : isPrintable c = true) (rest : Text) :
    basicPiece (c :: rest) = some ([c], rest) := by
  unfold basicPiece
  split
  · next h => exact absurd (List.cons.inj h).1 hbackslash
  · next h =>
    obtain ⟨rfl, rfl⟩ := List.cons.inj h
    rw [if_pos (by rw [hc, Bool.true_and, bne_iff_ne]; exact hquote)]
  · next h => cases h

theorem basicLinesPiece_escape {a : Char} (ha : KeepsLine a) (rest : Text) :
    basicLinesPiece ('\\' :: a :: rest) = Lexeme.escape (a :: rest) := by
  have hspace : skipSpace (a :: rest) = a :: rest := List.dropWhile_cons_of_neg (Bool.eq_false_iff.1 ha.1)
  rw [basicLinesPiece, hspace, lineEnd?_eq_none ha.2.1 ha.2.2, if_neg (by decide)]

theorem basicLinesPiece_plain {c : Char} (hbackslash : c ≠ '\\') (hline : c ≠ '\n') (hc : isPrintable c = true)
    (rest : Text) : basicLinesPiece (c :: rest) = some ([c], rest) := by
  unfold basicLinesPiece
  split
  · next h => cases h
  · next h => exact absurd (List.cons.inj h).1 hbackslash
  · next h =>
    obtain ⟨rfl, rfl⟩ := List.cons.inj h
    rw [lineEnd?_eq_none hline (ne_return_of_isPrintable hc)]
    exact if_pos hc

theorem literalLinesPiece_plain {c : Char} (hline : c ≠ '\n') (hc : isPrintable c = true) (rest : Text) :
    literalLinesPiece (c :: rest) = some ([c], rest) := by
  rw [literalLinesPiece, lineEnd?_eq_none hline (ne_return_of_isPrintable hc)]
  exact if_pos hc

/-- A form over several lines begins with a line end, which is dropped, or its body begins with none. -/
theorem skipFirstLineEnd_written {t u : Text}
    (h : '\n' ∉ t → ∃ c v, u = c :: v ∧ c ≠ '\n' ∧ c ≠ '\r') : skipFirstLineEnd (firstLineEnd t ++ u) = u := by
  rw [firstLineEnd]
  split
  · rfl
  · next hnone =>
    obtain ⟨c, v, rfl, hline, hreturn⟩ := h (by simpa using hnone)
    rw [List.nil_append, skipFirstLineEnd, lineEnd?_eq_none hline hreturn]
    rfl

/-- One quote opens a string on one line, unless two more follow. -/
theorem string_line {u : Text} (h : ∀ v, u ≠ '"' :: '"' :: v) :
    Lexeme.string ('"' :: u) = upTo (closeLine '"') basicPiece u := by
  unfold Lexeme.string
  split
  · next h' => exact absurd (List.cons.inj h').2 (h _)
  · next h' => rw [(List.cons.inj h').2]
  · next h' => cases h'
  · next h' => cases h'
  · next _ h' _ _ => exact absurd rfl (h' u)

theorem string_literalLine {u : Text} (h : ∀ v, u ≠ '\'' :: '\'' :: v) :
    Lexeme.string ('\'' :: u) = upTo (closeLine '\'') literalPiece u := by
  unfold Lexeme.string
  split
  · next h' => cases h'
  · next h' => cases h'
  · next h' => exact absurd (List.cons.inj h').2 (h _)
  · next h' => rw [(List.cons.inj h').2]
  · next _ _ _ h' => exact absurd rfl (h' u)

section
variable {rest : Text}

theorem Spelled.not_quotes {q : Char} {piece : Reader Text} {run : Nat} {body t : Text}
    (h : Spelled q piece 0 run body t) (hrest : rest.head? ≠ some q) (v : Text) : body ++ q :: rest ≠ q :: q :: v := by
  intro hquotes
  cases h with
  | nil =>
    rw [(List.cons.inj hquotes).2] at hrest
    exact hrest rfl
  | quote hrun => exact absurd hrun (Nat.not_lt_zero _)
  | other _ ha => exact ha (List.cons.inj hquotes).1

theorem string_basic (hrest : rest.head? ≠ some '"') (t : Text) : Lexeme.string (basic t ++ rest) = some (t, rest) := by
  have hbody : Spelled '"' basicPiece 0 0 (escaped false 0 0 t) t :=
    spelled_escaped (fun h => absurd h (Nat.lt_irrefl 0)) (fun _ _ _ => rfl)
      (fun c rest hquote hbackslash hshown => basicPiece_plain hquote hbackslash
        (hshown.elim (fun h => absurd h.1 Bool.false_ne_true) And.right) rest) 0 t
  have hwhole : basic t ++ rest = '"' :: (escaped false 0 0 t ++ '"' :: rest) := by
    rw [basic, List.append_assoc, List.append_assoc]
    rfl
  rw [hwhole, string_line (hbody.not_quotes hrest), hbody.upTo_line]

theorem string_literal (hrest : rest.head? ≠ some '\'') {t : Text} (hplain : ∀ c ∈ t, isPrintable c = true)
    (hruns : longestRun '\'' 0 t = 0) : Lexeme.string (literal t ++ rest) = some (t, rest) := by
  have hbody : Spelled '\'' literalPiece 0 0 t t := by
    refine spelled_literal (fun h => absurd h (Nat.lt_irrefl 0)) (fun c hc hquote rest => if_pos ?_) (Nat.le_of_eq hruns)
    rw [hplain c hc, Bool.true_and, bne_iff_ne]
    exact hquote
  have hwhole : literal t ++ rest = '\'' :: (t ++ '\'' :: rest) := by
    rw [literal, List.append_assoc, List.append_assoc]
    rfl
  rw [hwhole, string_literalLine (hbody.not_quotes hrest), hbody.upTo_line]

theorem string_basicLines (hrest : rest.head? ≠ some '"') (t : Text) :
    Lexeme.string (basicLines t ++ rest) = some (t, rest) := by
  have hbody : Spelled '"' basicLinesPiece 2 0 (escaped true 2 0 t) t := by
    refine spelled_escaped (fun _ rest => basicLinesPiece_plain (by decide) (by decide) (by decide) rest)
      (fun a rest ha => basicLinesPiece_escape ha rest) (fun c rest _ hbackslash hshown => ?_) 0 t
    rcases hshown with ⟨-, rfl⟩ | ⟨hline, hshown⟩
    · rfl
    · exact basicLinesPiece_plain hbackslash hline hshown rest
  have hwhole : basicLines t ++ rest =
      '"' :: '"' :: '"' :: (firstLineEnd t ++ (escaped true 2 0 t ++ '"' :: '"' :: '"' :: rest)) := by
    rw [basicLines, List.append_assoc, List.append_assoc, List.append_assoc]
    rfl
  have hfirst : '\n' ∉ t → ∃ c v, escaped true 2 0 t ++ '"' :: '"' :: '"' :: rest = c :: v ∧ c ≠ '\n' ∧ c ≠ '\r' := by
    intro hnone
    cases t with
    | nil => exact ⟨'"', _, rfl, by decide, by decide⟩
    | cons c t =>
      rw [escaped]
      split
      · exact ⟨'"', _, rfl, by decide, by decide⟩
      · cases hesc : escape? true c with
        | some e =>
          obtain ⟨a, more, rfl, -, -⟩ := escape_of_escape? hesc
          exact ⟨'\\', _, rfl, by decide, by decide⟩
        | none =>
          have hline : c ≠ '\n' := fun hc => hnone (hc ▸ List.mem_cons_self)
          have hshown := (of_escape?_none hesc).2.resolve_left fun h => hline h.2
          exact ⟨c, _, rfl, hline, ne_return_of_isPrintable hshown.2⟩
  rw [hwhole]
  show upTo (closeLines '"') basicLinesPiece (skipFirstLineEnd _) = _
  rw [skipFirstLineEnd_written hfirst, hbody.upTo_lines (Nat.zero_le 2) hrest]

theorem string_literalLines (hrest : rest.head? ≠ some '\'') {t : Text}
    (hplain : ∀ c ∈ t, c = '\n' ∨ isPrintable c = true) (hruns : longestRun '\'' 0 t ≤ 2) :
    Lexeme.string (literalLines t ++ rest) = some (t, rest) := by
  have hbody : Spelled '\'' literalLinesPiece 2 0 t t := by
    refine spelled_literal (fun _ rest => literalLinesPiece_plain (by decide) (by decide) rest) (fun c hc _ rest => ?_) hruns
    by_cases hline : c = '\n'
    · rw [hline]
      rfl
    · exact literalLinesPiece_plain hline ((hplain c hc).resolve_left hline) rest
  have hwhole : literalLines t ++ rest = '\'' :: '\'' :: '\'' :: (firstLineEnd t ++ (t ++ '\'' :: '\'' :: '\'' :: rest)) := by
    rw [literalLines, List.append_assoc, List.append_assoc, List.append_assoc]
    rfl
  have hfirst : '\n' ∉ t → ∃ c v, t ++ '\'' :: '\'' :: '\'' :: rest = c :: v ∧ c ≠ '\n' ∧ c ≠ '\r' := by
    intro hnone
    cases t with
    | nil => exact ⟨'\'', _, rfl, by decide, by decide⟩
    | cons c t =>
      have hline : c ≠ '\n' := fun hc => hnone (hc ▸ List.mem_cons_self)
      exact ⟨c, _, rfl, hline, ne_return_of_isPrintable ((hplain c List.mem_cons_self).resolve_left hline)⟩
  rw [hwhole]
  show upTo (closeLines '\'') literalLinesPiece (skipFirstLineEnd _) = _
  rw [skipFirstLineEnd_written hfirst, hbody.upTo_lines (Nat.zero_le 2) hrest]

/-- **Every text is read back as it was written**, whatever its form, up to what follows it. -/
theorem string_string (hrest : ∀ q ∈ ['"', '\''], rest.head? ≠ some q) (t : Text) :
    Lexeme.string (Writer.string t ++ rest) = some (t, rest) := by
  obtain ⟨hdouble, hsingle⟩ := List.forall_mem_cons.1 hrest
  have hsingle := hsingle '\'' List.mem_cons_self
  have hshown : t.any needsEscape = false → ∀ c ∈ t, c = '\n' ∨ isPrintable c = true := by
    intro hescapes c hc
    by_cases hline : c = '\n'
    · exact .inl hline
    · exact .inr (isPrintable_of_not_needsEscape (Bool.eq_false_iff.2 (List.any_eq_false.1 hescapes c hc)) hline)
  rw [Writer.string]
  split
  · exact string_basic hdouble t
  split
  · next hliteral =>
    simp only [Bool.and_eq_true, Bool.not_eq_true', decide_eq_true_eq] at hliteral
    obtain ⟨⟨hescapes, hsingles⟩, hlines⟩ := hliteral
    refine string_literal hsingle (fun c hc => (hshown hescapes c hc).resolve_left ?_) hsingles
    rintro rfl
    rw [List.contains_iff_mem.2 hc] at hlines
    cases hlines
  split
  · exact string_basicLines hdouble t
  split
  · next hliteral =>
    simp only [Bool.and_eq_true, Bool.not_eq_true', decide_eq_true_eq] at hliteral
    exact string_literalLines hsingle (hshown hliteral.1) hliteral.2
  split
  · exact string_basicLines hdouble t
  · exact string_basic hdouble t

end

example : Writer.string "\n''\"\"\"''".toList = "'''\n\n''\"\"\"'''''".toList := by decide +kernel

end Toml
end WatchList
