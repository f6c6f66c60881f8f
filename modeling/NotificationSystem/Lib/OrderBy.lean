import Mathlib.Data.List.Sort

/-!
# Ordering by a key

A query that orders its rows by a column may return rows with the same value in any order.

* `OrderedBy` — the lists that such a query may return.
* `OrderedBy.keys`, `OrderedBy.eq` — the column is determined, and so are the rows where no two have
  the same value.
* `OrderedBy.split` — only ties come before a least row.
-/

namespace NotificationSystem.Lib

variable {α κ : Type*} [LinearOrder κ] {key : α → κ} {l r : List α} {a : α}

/-- `r` has the rows of `l`, ordered by `key`. -/
structure OrderedBy (key : α → κ) (l r : List α) : Prop where
  perm : r.Perm l
  ordered : r.Pairwise fun a b => key a ≤ key b

theorem orderedBy_insertionSort : OrderedBy key l (l.insertionSort fun a b => key a ≤ key b) := by
  have : Std.Total fun a b => key a ≤ key b := ⟨fun a b => le_total (key a) (key b)⟩
  have : IsTrans α fun a b => key a ≤ key b := ⟨fun _ _ _ h h' => h.trans h'⟩
  exact ⟨List.perm_insertionSort _ l, List.pairwise_insertionSort _ l⟩

namespace OrderedBy

theorem mem (h : OrderedBy key l r) : a ∈ r ↔ a ∈ l := h.perm.mem_iff

/-- The column of the answer is that of any other ordered list of the rows. -/
theorem keys (h : OrderedBy key l r) (hl : l.Pairwise fun a b => key a ≤ key b) :
    r.map key = l.map key := by
  have hr : (r.map key).Pairwise (· ≤ ·) := List.pairwise_map.2 h.ordered
  have hl' : (l.map key).Pairwise (· ≤ ·) := List.pairwise_map.2 hl
  exact List.Perm.eq_of_pairwise (fun _ _ _ _ => le_antisymm) hr hl' (h.perm.map key)

theorem eq (h : OrderedBy key l r) (hl : l.Pairwise fun a b => key a ≤ key b)
    (hnd : (l.map key).Nodup) : r = l := by
  refine List.Perm.eq_of_pairwise (fun a b ha hb hab hba => ?_) h.ordered hl h.perm
  exact List.inj_on_of_nodup_map hnd (h.mem.1 ha) hb (le_antisymm hab hba)

/-- What comes before a row that none precedes has its value. -/
theorem split (h : OrderedBy key l r) (ha : a ∈ l) (hmin : ∀ b ∈ l, key a ≤ key b) :
    ∃ before after, r = before ++ a :: after ∧ ∀ b ∈ before, key b = key a := by
  obtain ⟨before, after, rfl⟩ := List.append_of_mem (h.mem.2 ha)
  refine ⟨before, after, rfl, fun b hb => le_antisymm ?_ (hmin b (h.mem.1 ?_))⟩
  · exact (List.pairwise_append.1 h.ordered).2.2 b hb a List.mem_cons_self
  · exact List.mem_append_left _ hb

end OrderedBy

end NotificationSystem.Lib
