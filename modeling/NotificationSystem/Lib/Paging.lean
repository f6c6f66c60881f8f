import Mathlib.Data.List.Sort

/-!
# Paging through a list that changes

A client reads the pages of a list at the offsets `0`, `L`, `2 * L`, … until a page is short. The
list may change between the reads: `R v v'` says how.

* `Scan` — the pages of such a sequence of reads.
* `Scan.mem` — when elements are only ever added, no element of the first list is skipped.
* `Scan.flatten` — when the list stays as it is, the pages are its pieces.
* `sublist_of_ordered` — a strictly ordered list whose set of elements grows only has elements
  added.
* `Scan.mem_of_ahead` — in ordered lists that also lose elements, one is skipped only when one
  before it leaves.
-/

namespace NotificationSystem.Lib

variable {α : Type*}

/-- The page of `L` elements at an offset. -/
def page (l : List α) (L offset : Nat) : List α := (l.drop offset).take L

theorem length_page {l : List α} {L offset : Nat} :
    (page l L offset).length = min L (l.length - offset) := by
  simp [page]

theorem page_of_short {l : List α} {L offset : Nat} (h : (page l L offset).length < L) :
    page l L offset = l.drop offset := by
  rw [length_page] at h
  rw [page, List.take_of_length_le]
  rw [List.length_drop]
  omega

theorem page_append_drop {l : List α} {L k : Nat} :
    page l L (k * L) ++ l.drop ((k + 1) * L) = l.drop (k * L) := by
  rw [page, Nat.succ_mul, ← List.drop_drop, List.take_append_drop]

/-- `Scan R L k v pages`: the pages from the `k`-th on, the first of them read from `v`. -/
inductive Scan (R : List α → List α → Prop) (L : Nat) : Nat → List α → List (List α) → Prop
  | last {k : Nat} {v : List α} : (page v L (k * L)).length < L → Scan R L k v [page v L (k * L)]
  | next {k : Nat} {v v' : List α} {pages : List (List α)} : (page v L (k * L)).length = L →
      R v v' → Scan R L (k + 1) v' pages → Scan R L k v (page v L (k * L) :: pages)

variable {R : List α → List α → Prop} {L k : Nat} {v : List α} {pages : List (List α)} {x : α}

/-- **No element is skipped.** What lies at or after the offset of the next read is on one of the
pages to come: an insertion only moves it back. -/
theorem Scan.mem (hR : ∀ v v', R v v' → v.Sublist v') (h : Scan R L k v pages)
    (hx : x ∈ v.drop (k * L)) : ∃ p ∈ pages, x ∈ p := by
  induction h with
  | last hshort => exact ⟨_, List.mem_cons_self, by rwa [page_of_short hshort]⟩
  | @next k v v' pages _ hgrow _ ih =>
    rw [← page_append_drop, List.mem_append] at hx
    rcases hx with hpage | hrest
    · exact ⟨_, List.mem_cons_self, hpage⟩
    · have hmoved : (v.drop ((k + 1) * L)).Sublist (v'.drop ((k + 1) * L)) := (hR v v' hgrow).drop _
      obtain ⟨p, hp, hxp⟩ := ih (hmoved.subset hrest)
      exact ⟨p, List.mem_cons_of_mem _ hp, hxp⟩

/-- **The pages of an unchanged list are its pieces.** -/
theorem Scan.flatten (hR : ∀ v v', R v v' → v = v') (h : Scan R L k v pages) :
    pages.flatten = v.drop (k * L) := by
  induction h with
  | last hshort => simp [page_of_short hshort]
  | next _ hsame _ ih =>
    obtain rfl := hR _ _ hsame
    rw [List.flatten_cons, ih, page_append_drop]

/-! ## Ordered lists -/

section ordered

variable {r : α → α → Prop} [Std.Asymm r] {s t : List α}

/-- Where the elements of one strictly ordered list are among those of another, the first is the
second with some elements removed. -/
theorem sublist_of_ordered (hs : s.Pairwise r) (ht : t.Pairwise r) (h : s ⊆ t) : s.Sublist t := by
  have hirrefl : Std.Irrefl r := ⟨fun a ha => Std.Asymm.asymm a a ha ha⟩
  have hantisymm : Std.Antisymm r := ⟨fun a b hab hba => absurd hba (Std.Asymm.asymm a b hab)⟩
  exact List.sublist_of_subperm_of_pairwise (List.subperm_of_subset hs.nodup h) hs ht

/-- From `v` to `v'`, ordered lists both, neither `x` nor anything that comes before it leaves. -/
structure KeepsAhead (r : α → α → Prop) (x : α) (v v' : List α) : Prop where
  before : v.Pairwise r
  after : v'.Pairwise r
  ahead : ∀ y ∈ v, y = x ∨ r y x → y ∈ v'

theorem KeepsAhead.mem_drop {x : α} {v v' : List α} {m : Nat} (h : KeepsAhead r x v v')
    (hx : x ∈ v.drop m) : x ∈ v'.drop m := by
  have hirrefl : Std.Irrefl r := ⟨fun a ha => Std.Asymm.asymm a a ha ha⟩
  obtain ⟨c, b, hcb⟩ := List.append_of_mem hx
  have hsplit : v = (v.take m ++ c) ++ x :: b := by
    rw [List.append_assoc, ← hcb, List.take_append_drop]
  generalize ha : v.take m ++ c = a at hsplit
  have hm : m ≤ a.length := by
    have hlt := List.length_pos_of_mem hx
    rw [List.length_drop] at hlt
    rw [← ha, List.length_append, List.length_take]
    omega
  have hordered := hsplit ▸ h.before
  obtain ⟨hpair, -, hbefore⟩ := List.pairwise_append.1 hordered
  have hxv : x ∈ v := hsplit ▸ List.mem_append_right _ List.mem_cons_self
  obtain ⟨a', b', hsplit'⟩ := List.append_of_mem (h.ahead x hxv (.inl rfl))
  obtain ⟨-, htail, -⟩ := List.pairwise_append.1 (hsplit' ▸ h.after)
  -- what comes before `x` in `v` comes before it in `v'`
  have hsub : a ⊆ a' := by
    intro y hy
    have hyx : r y x := hbefore y hy x List.mem_cons_self
    have hy' : y ∈ v' := h.ahead y (hsplit ▸ List.mem_append_left _ hy) (.inr hyx)
    rw [hsplit'] at hy'
    rcases List.mem_append.1 hy' with hleft | hright
    · exact hleft
    · rcases List.mem_cons.1 hright with rfl | htail'
      · exact (hirrefl.irrefl _ hyx).elim
      · exact (Std.Asymm.asymm _ _ hyx ((List.pairwise_cons.1 htail).1 y htail')).elim
  have hle : a.length ≤ a'.length := (List.subperm_of_subset hpair.nodup hsub).length_le
  rw [hsplit', List.drop_append_of_le_length (hm.trans hle)]
  exact List.mem_append_right _ List.mem_cons_self

/-- **An element is skipped only when one before it leaves.** -/
theorem Scan.mem_of_ahead {x : α} {v : List α} {pages : List (List α)} {L k : Nat}
    (h : Scan (KeepsAhead r x) L k v pages) (hx : x ∈ v.drop (k * L)) : ∃ p ∈ pages, x ∈ p := by
  induction h with
  | last hshort => exact ⟨_, List.mem_cons_self, by rwa [page_of_short hshort]⟩
  | next _ hkeep _ ih =>
    rw [← page_append_drop, List.mem_append] at hx
    rcases hx with hpage | hrest
    · exact ⟨_, List.mem_cons_self, hpage⟩
    · obtain ⟨p, hp, hxp⟩ := ih (hkeep.mem_drop hrest)
      exact ⟨p, List.mem_cons_of_mem _ hp, hxp⟩

end ordered

end NotificationSystem.Lib
