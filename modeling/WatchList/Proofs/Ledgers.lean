import WatchList.Proofs.Repetition
import WatchList.Proofs.Tidiness
/-!
# What a catalog holds, entry by entry

A shelf keeps its entries in the order of their last writes; the rows of a table are brought into it by their revisions
(`Table.entries`).  So both catalogs are read as one list of entries, which a write overwrites (`Holdings.Ledger.fill`).
Rows that share a revision are read in the order in which their titles came in.
-/
namespace WatchList

/-- A view of holdings whose entries can be read off them. -/
structure Holdings.Ledger (σ : Type) [Holdings σ] (β : Type) [DecidableEq β] extends Holdings.View σ β where
  entries : σ → List Entry
  entries_eq : ∀ {h es}, shows h es → entries h = es

def Shelf.ledger : Holdings.Ledger Shelf Text where
  toView := Shelf.view
  entries := Shelf.entries
  entries_eq h := h.1

/-- The rows as entries, the least recently written first. -/
def Table.entries (t : Table) : List Entry := ((newestFirst t.rows).map entryOf).reverse

def Table.ledger : Holdings.Ledger Table (Nat × Text) where
  key := Table.key
  shows := Table.Lists
  nodup h := h.distinct
  put h := h.put
  titles h := h.titles
  entries := Table.entries
  entries_eq h := by rw [Table.entries, h.newest, List.reverse_reverse]

theorem Shelf.shows_entries {s : Shelf} (h : (keys Text.lowercase s.entries).Nodup) :
    Shelf.ledger.shows s s.entries := ⟨rfl, h⟩

theorem Table.shows_entries {t : Table} (h : t.rows.Pairwise fun r r' => ¬ same r.title r'.title) :
    Table.ledger.shows t t.entries := by
  obtain ⟨es, hes⟩ := exists_lists (h.imp fun hne heq => hne ((same_iff _ _).2 heq))
  have hread : t.entries = es := Table.ledger.entries_eq hes
  rw [hread]
  exact hes

/-- **Writes overwrite the entries** that holdings show. -/
theorem Holdings.View.fill {σ : Type} [Holdings σ] {β : Type} [DecidableEq β] (v : Holdings.View σ β) :
    ∀ (ws : List Entry) {h : σ} {es : List Entry}, v.shows h es →
      v.shows (Holdings.fill h ws) (overwriteAll v.key es ws)
  | [], _, _, hes => hes
  | w :: ws, _, _, hes => v.fill ws (v.put hes w.title w.status)

/-- Two entries of one title are one entry. -/
theorem eq_of_title_eq {β : Type} [DecidableEq β] {key : Text → β} {es : List Entry} (h : (keys key es).Nodup)
    {e e' : Entry} (he : e ∈ es) (he' : e' ∈ es) (heq : e.title = e'.title) : e = e' :=
  List.inj_on_of_nodup_map h he he' (congrArg key heq)

end WatchList
