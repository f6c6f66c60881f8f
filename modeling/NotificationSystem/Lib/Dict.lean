import NotificationSystem.Lib.Table

/-!
# Dictionaries in insertion order

A `Dict` is a table of key-value pairs in which no key stands twice. Setting a key that is there
changes its value in place; a new key goes to the end.

* `lookup_set`, `lookup_setIf`, `values_set` — what is looked up, and what holds of the values,
  after a key was set.
* `ofPairs` — the dictionary of a list of pairs, where a later pair replaces an earlier one;
  `ofPairs_rows` for pairs with different keys.
-/

namespace NotificationSystem.Lib

variable {κ α : Type*}

/-- A dictionary: its key-value pairs in the order in which the keys were first set. -/
abbrev Dict (κ α : Type*) := Table (Prod.fst : κ × α → κ)

namespace Dict

variable [DecidableEq κ] {d : Dict κ α} {k k' : κ} {v : α}

/-- `d.get(k)`. -/
def lookup (d : Dict κ α) (k : κ) : Option α := (Table.get d k).map Prod.snd

/-- `d[k] = v`. -/
def set (d : Dict κ α) (k : κ) (v : α) : Dict κ α :=
  (Table.insert? d (k, v)).getD (Table.modify d k (fun f => (f.1, v)) fun _ => rfl)

theorem lookup_empty (k : κ) : lookup (Table.empty : Dict κ α) k = none := rfl

theorem lookup_eq_some : d.lookup k = some v ↔ (k, v) ∈ d := by
  simp only [lookup, Option.map_eq_some_iff]
  constructor
  · rintro ⟨⟨k', v'⟩, hget, rfl⟩
    obtain ⟨hmem, rfl⟩ := Table.get_eq_some.1 hget
    exact hmem
  · intro hmem
    exact ⟨(k, v), Table.get_of_mem hmem, rfl⟩

theorem set_of_new (h : ∀ f ∈ d, f.1 ≠ k) (v : α) : (d.set k v).rows = d.rows ++ [(k, v)] := by
  obtain ⟨d', hinsert⟩ := Table.insert?_of_fresh (t := d) (r := (k, v)) h
  rw [set, hinsert]
  exact (Table.insert?_eq_some hinsert).1

theorem mem_set {f : κ × α} : f ∈ d.set k v ↔ f = (k, v) ∨ (f ∈ d ∧ f.1 ≠ k) := by
  cases hinsert : Table.insert? d (k, v) with
  | some d' =>
    have hnew := (Table.insert?_eq_some hinsert).2
    rw [set, hinsert, Option.getD_some, Table.mem_insert? hinsert]
    constructor
    · rintro (hmem | rfl)
      · exact .inr ⟨hmem, hnew f hmem⟩
      · exact .inl rfl
    · rintro (rfl | ⟨hmem, -⟩)
      · exact .inr rfl
      · exact .inl hmem
  | none =>
    -- the key is there
    obtain ⟨g, hg, hkey⟩ : ∃ g ∈ d, g.1 = k := by
      by_contra hnone
      obtain ⟨d', h⟩ := Table.insert?_of_fresh (t := d) (r := (k, v)) fun q hq he =>
        hnone ⟨q, hq, he⟩
      rw [hinsert] at h
      cases h
    rw [set, hinsert, Option.getD_none, Table.mem_modify]
    constructor
    · rintro ⟨q, hq, rfl⟩
      split
      · next hqk => exact .inl (Prod.ext hqk rfl)
      · next hqk => exact .inr ⟨hq, hqk⟩
    · rintro (rfl | ⟨hmem, hne⟩)
      · exact ⟨g, hg, by rw [if_pos hkey, hkey]⟩
      · exact ⟨f, hmem, by rw [if_neg hne]⟩

theorem lookup_set : (d.set k v).lookup k' = if k' = k then some v else d.lookup k' := by
  refine Option.ext fun w => ?_
  rw [lookup_eq_some, mem_set]
  split
  · next heq => simp [heq, eq_comm]
  · next hne => simp [hne, lookup_eq_some]

/-- `if v is not None: d[k] = v`. -/
def setIf (d : Dict κ α) (k : κ) (o : Option α) : Dict κ α :=
  match o with
  | none => d
  | some v => d.set k v

theorem lookup_setIf {o : Option α} :
    (d.setIf k o).lookup k' = if k' = k then o.or (d.lookup k') else d.lookup k' := by
  cases o with
  | none => simp [setIf]
  | some v => simp [setIf, lookup_set]

section values

variable {P : α → Prop}

theorem values_set (hd : ∀ f ∈ d, P f.2) (hv : P v) : ∀ f ∈ d.set k v, P f.2 := by
  intro f hf
  rcases mem_set.1 hf with rfl | ⟨hf, -⟩
  · exact hv
  · exact hd f hf

theorem values_setIf {o : Option α} (hd : ∀ f ∈ d, P f.2) (ho : ∀ v, o = some v → P v) :
    ∀ f ∈ d.setIf k o, P f.2 := by
  cases o with
  | none => exact hd
  | some v => exact values_set hd (ho v rfl)

end values

/-- The dictionary that the pairs make, one after another. -/
def ofPairs (pairs : List (κ × α)) : Dict κ α :=
  pairs.foldl (fun d f => d.set f.1 f.2) Table.empty

theorem foldl_set_rows {pairs : List (κ × α)} (hnd : (pairs.map Prod.fst).Nodup)
    (hnew : ∀ f ∈ d, f.1 ∉ pairs.map Prod.fst) :
    (pairs.foldl (fun d f => d.set f.1 f.2) d).rows = d.rows ++ pairs := by
  induction pairs generalizing d with
  | nil => simp
  | cons f pairs ih =>
    obtain ⟨hf, hnd⟩ := List.nodup_cons.1 hnd
    have hrows : (d.set f.1 f.2).rows = d.rows ++ [f] :=
      set_of_new (fun g hg he => hnew g hg (he ▸ List.mem_cons_self)) f.2
    rw [List.foldl_cons, ih hnd]
    · rw [hrows, List.append_assoc, List.singleton_append]
    · intro g hg
      rcases mem_set.1 hg with rfl | ⟨hg, -⟩
      · exact hf
      · exact fun hmem => hnew g hg (List.mem_cons_of_mem _ hmem)

theorem ofPairs_rows {pairs : List (κ × α)} (h : (pairs.map Prod.fst).Nodup) :
    (ofPairs pairs).rows = pairs :=
  (foldl_set_rows h fun _ hf => absurd hf Table.not_mem_empty).trans (List.nil_append _)

theorem mem_ofPairs {pairs : List (κ × α)} {f : κ × α} (hnd : (pairs.map Prod.fst).Nodup) :
    f ∈ ofPairs pairs ↔ f ∈ pairs := by
  rw [Table.mem_def, ofPairs_rows hnd]

theorem ofPairs_of_rows (d : Dict κ α) : ofPairs d.rows = d := by
  have hrows := ofPairs_rows d.nodup
  cases h : ofPairs d.rows
  cases d
  simp only [h] at hrows
  subst hrows
  rfl

end Dict

end NotificationSystem.Lib
