import Mathlib.Data.List.Sort

/-!
# Emptying a list in batches

The elements of a list are taken out of it in batches, each batch the least elements of what is
left, in order.

* `Emptied` — what has been taken out so far, and what is left.
* `Emptied.batch` — the next batch. Its size is not bounded, so the sizes may vary.
* `map_key_eq_of_pairwise` — up to ties there is one order in which everything comes out.
-/

namespace NotificationSystem.Lib

variable {α κ : Type*} {r : α → α → Prop} {all out rest l : List α}

/-- The elements of `out` have been taken out of `all`, in the order `r`, and those of `rest` are
left. -/
structure Emptied (r : α → α → Prop) (all out rest : List α) : Prop where
  perm : (out ++ rest).Perm all
  ordered : out.Pairwise r
  before : ∀ a ∈ out, ∀ b ∈ rest, r a b

theorem emptied_nil : Emptied r all [] all where
  perm := .refl _
  ordered := .nil
  before := nofun

theorem Emptied.mem_out (h : Emptied r all out rest) {a : α} (ha : a ∈ out) : a ∈ all :=
  h.perm.subset (List.mem_append_left _ ha)

theorem Emptied.mem_rest (h : Emptied r all out rest) {a : α} (ha : a ∈ rest) : a ∈ all :=
  h.perm.subset (List.mem_append_right _ ha)

theorem Emptied.mem_or (h : Emptied r all out rest) {a : α} (ha : a ∈ all) :
    a ∈ out ∨ a ∈ rest :=
  List.mem_append.1 (h.perm.symm.subset ha)

theorem Emptied.length (h : Emptied r all out rest) : out.length + rest.length = all.length := by
  rw [← List.length_append, h.perm.length_eq]

/-- Where nothing is left, everything has been taken out, in order. -/
theorem Emptied.of_nil (h : Emptied r all out []) : out.Perm all ∧ out.Pairwise r :=
  ⟨by simpa using h.perm, h.ordered⟩

section batch

variable [DecidableRel r] [Std.Total r] [IsTrans α r]

/-- **The next batch.** The least elements of what is left come after all that were taken before
them and before all that are left then. -/
theorem Emptied.batch (h : Emptied r all out rest) (hl : l.Perm rest) (k : Nat) :
    Emptied r all (out ++ (l.insertionSort r).take k) ((l.insertionSort r).drop k) := by
  have hsort : (l.insertionSort r).Perm rest := (List.perm_insertionSort r l).trans hl
  have hparts : ((l.insertionSort r).take k ++ (l.insertionSort r).drop k).Pairwise r := by
    rw [List.take_append_drop]
    exact List.pairwise_insertionSort r l
  obtain ⟨htake, -, hbefore⟩ := List.pairwise_append.1 hparts
  constructor
  · rw [List.append_assoc, List.take_append_drop]
    exact (hsort.append_left out).trans h.perm
  · rw [List.pairwise_append]
    refine ⟨h.ordered, htake, fun a ha b hb => ?_⟩
    exact h.before a ha b (hsort.subset (List.mem_of_mem_take hb))
  · intro a ha b hb
    rcases List.mem_append.1 ha with hout | htaken
    · exact h.before a hout b (hsort.subset (List.mem_of_mem_drop hb))
    · exact hbefore a htaken b hb

end batch

/-! ## Keys -/

section key

variable [PartialOrder κ] {key : α → κ} {l₁ l₂ : List α}

/-- Two ways to put the same elements in the order of their keys list the same keys. -/
theorem map_key_eq_of_pairwise (hr : ∀ a b, r a b → key a ≤ key b) (h : l₁.Perm l₂)
    (h₁ : l₁.Pairwise r) (h₂ : l₂.Pairwise r) : l₁.map key = l₂.map key := by
  refine (h.map key).eq_of_pairwise (fun a b _ _ => le_antisymm) ?_ ?_
  · exact List.pairwise_map.2 (h₁.imp (hr _ _))
  · exact List.pairwise_map.2 (h₂.imp (hr _ _))

end key

end NotificationSystem.Lib
