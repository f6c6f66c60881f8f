import Mathlib.Tactic
import Mathlib.Data.List.Nodup

/-!
# Tables with a primary key, and column-wise updates

A `Table key` is a list of rows no two of which share a key, so that a violation of the
primary key cannot be built: inserting a row whose key is taken fails.

* `get`, `insert?`, `insertAll?`, `modifyWhere`, `modify`, `keep` — the operations, and their
  lemmas about membership and lookup.
* `Grows` — rows were appended and others changed, but not in some fixed columns.
* `filter_key_nil`, `filter_key_singleton` — the rows of a list with a given key.
* `writeColumn` — what an object-relational session writes for one column: a value that is
  unchanged since it was loaded leaves the stored one alone.
-/

namespace NotificationSystem.Lib

variable {κ ρ : Type*}

/-- Rows with pairwise different keys, in the order in which they were inserted. -/
structure Table (key : ρ → κ) where
  rows : List ρ
  nodup : (rows.map key).Nodup

namespace Table

variable {key : ρ → κ}

instance : Membership ρ (Table key) := ⟨fun t r => r ∈ t.rows⟩

theorem mem_def {t : Table key} {r : ρ} : r ∈ t ↔ r ∈ t.rows := Iff.rfl

/-- The table without rows. -/
def empty : Table key := ⟨[], List.nodup_nil⟩

@[simp] theorem rows_empty : (empty : Table key).rows = [] := rfl

@[simp] theorem not_mem_empty {r : ρ} : r ∉ (empty : Table key) := by simp [mem_def]

/-- Rows with equal keys are equal. -/
theorem eq_of_key {t : Table key} {r r' : ρ} (h : r ∈ t) (h' : r' ∈ t) (hk : key r = key r') :
    r = r' :=
  List.inj_on_of_nodup_map t.nodup h h' hk

/-- Keep the rows that satisfy `p` (`DELETE WHERE NOT p`). -/
def keep (t : Table key) (p : ρ → Bool) : Table key :=
  ⟨t.rows.filter p, t.nodup.sublist (List.filter_sublist.map key)⟩

@[simp] theorem mem_keep {t : Table key} {p : ρ → Bool} {r : ρ} :
    r ∈ t.keep p ↔ r ∈ t ∧ p r = true := List.mem_filter

variable [DecidableEq κ]

/-- The row with key `k`. -/
def get (t : Table key) (k : κ) : Option ρ := t.rows.find? fun r => key r = k

@[simp] theorem get_empty (k : κ) : (empty : Table key).get k = none := rfl

theorem get_eq_some {t : Table key} {k : κ} {r : ρ} : t.get k = some r ↔ r ∈ t ∧ key r = k := by
  constructor
  · intro h
    exact ⟨List.mem_of_find?_eq_some h, by simpa using List.find?_some h⟩
  · rintro ⟨hr, hk⟩
    cases hg : t.get k with
    | none => exact absurd hk (by simpa using List.find?_eq_none.1 hg r hr)
    | some r' =>
      have hk' : key r' = k := by simpa using List.find?_some hg
      rw [eq_of_key (List.mem_of_find?_eq_some hg) hr (hk'.trans hk.symm)]

theorem get_key {t : Table key} {k : κ} {r : ρ} (h : t.get k = some r) : key r = k :=
  (get_eq_some.1 h).2

theorem mem_of_get {t : Table key} {k : κ} {r : ρ} (h : t.get k = some r) : r ∈ t :=
  (get_eq_some.1 h).1

theorem get_of_mem {t : Table key} {r : ρ} (h : r ∈ t) : t.get (key r) = some r :=
  get_eq_some.2 ⟨h, rfl⟩

theorem get_eq_none {t : Table key} {k : κ} : t.get k = none ↔ ∀ r ∈ t, key r ≠ k := by
  simp [get, mem_def]

/-! ## Insertion -/

/-- Insert a row; `none` when its key is taken. -/
def insert? (t : Table key) (r : ρ) : Option (Table key) :=
  if h : key r ∈ t.rows.map key then none
  else some ⟨t.rows ++ [r], by
    rw [List.map_append, List.map_singleton]
    exact t.nodup.append (List.nodup_singleton _) (by simpa using h)⟩

theorem insert?_eq_some {t t' : Table key} {r : ρ} (h : t.insert? r = some t') :
    t'.rows = t.rows ++ [r] ∧ ∀ q ∈ t, key q ≠ key r := by
  unfold insert? at h
  split at h
  · cases h
  · next hk =>
    cases h
    exact ⟨rfl, fun q hq he => hk (List.mem_map.2 ⟨q, hq, he⟩)⟩

theorem insert?_of_fresh {t : Table key} {r : ρ} (h : ∀ q ∈ t, key q ≠ key r) :
    ∃ t', t.insert? r = some t' := by
  unfold insert?
  rw [dif_neg]
  · exact ⟨_, rfl⟩
  · intro hk
    obtain ⟨q, hq, he⟩ := List.mem_map.1 hk
    exact h q hq he

theorem mem_insert? {t t' : Table key} {r q : ρ} (h : t.insert? r = some t') :
    q ∈ t' ↔ q ∈ t ∨ q = r := by
  rw [mem_def, (insert?_eq_some h).1]
  simp [mem_def]

/-- Insert rows one after the other. -/
def insertAll? (t : Table key) : List ρ → Option (Table key)
  | [] => some t
  | r :: rs => (t.insert? r).bind fun t' => t'.insertAll? rs

theorem insertAll?_rows {t t' : Table key} {rs : List ρ} (h : t.insertAll? rs = some t') :
    t'.rows = t.rows ++ rs := by
  induction rs generalizing t with
  | nil => cases h; simp
  | cons r rs ih =>
    obtain ⟨t₁, h₁, h₂⟩ := Option.bind_eq_some_iff.1 h
    rw [ih h₂, (insert?_eq_some h₁).1, List.append_assoc, List.singleton_append]

theorem mem_insertAll? {t t' : Table key} {rs : List ρ} {q : ρ} (h : t.insertAll? rs = some t') :
    q ∈ t' ↔ q ∈ t ∨ q ∈ rs := by
  rw [mem_def, insertAll?_rows h, List.mem_append, mem_def]

/-- The rows that are there stay. -/
theorem get_insertAll? {t t' : Table key} {rs : List ρ} (h : t.insertAll? rs = some t') {k : κ}
    {r : ρ} (hr : t.get k = some r) : t'.get k = some r := by
  obtain ⟨hmem, rfl⟩ := get_eq_some.1 hr
  exact get_of_mem ((mem_insertAll? h).2 (.inl hmem))

theorem insertAll?_of_fresh {t : Table key} {rs : List ρ} (hnd : (rs.map key).Nodup)
    (h : ∀ q ∈ t, key q ∉ rs.map key) : ∃ t', t.insertAll? rs = some t' := by
  induction rs generalizing t with
  | nil => exact ⟨t, rfl⟩
  | cons r rs ih =>
    simp only [List.map_cons, List.nodup_cons] at hnd
    obtain ⟨t₁, h₁⟩ := insert?_of_fresh (t := t) (r := r) fun q hq he => h q hq (by simp [he])
    obtain ⟨t₂, h₂⟩ := ih (t := t₁) hnd.2 fun q hq hmem => by
      rcases (mem_insert? h₁).1 hq with hq | rfl
      · exact h q hq (by simp [hmem])
      · exact hnd.1 hmem
    exact ⟨t₂, by simp [insertAll?, h₁, h₂]⟩

/-! ## Update -/

omit [DecidableEq κ] in
theorem map_keys_modify (rows : List ρ) (p : ρ → Bool) (f : ρ → ρ)
    (hf : ∀ r, key (f r) = key r) :
    (rows.map fun r => if p r then f r else r).map key = rows.map key := by
  rw [List.map_map]
  refine List.map_congr_left fun r _ => ?_
  simp only [Function.comp_apply]
  split <;> simp [hf]

/-- Apply `f` to the rows that satisfy `p` (`UPDATE … WHERE p`). -/
def modifyWhere (t : Table key) (p : ρ → Bool) (f : ρ → ρ) (hf : ∀ r, key (f r) = key r) :
    Table key :=
  ⟨t.rows.map fun r => if p r then f r else r, by
    rw [map_keys_modify _ _ _ hf]
    exact t.nodup⟩

/-- Apply `f` to the row with key `k` (`UPDATE … WHERE key = k`). -/
def modify (t : Table key) (k : κ) (f : ρ → ρ) (hf : ∀ r, key (f r) = key r) : Table key :=
  t.modifyWhere (fun r => key r = k) f hf

section modify

variable {t : Table key} {p : ρ → Bool} {k : κ} {f : ρ → ρ} (hf : ∀ r, key (f r) = key r)

omit [DecidableEq κ] in
theorem rows_modifyWhere :
    (t.modifyWhere p f hf).rows = t.rows.map fun r => if p r then f r else r := rfl

omit [DecidableEq κ] in
theorem mem_modifyWhere {q : ρ} :
    q ∈ t.modifyWhere p f hf ↔ ∃ r ∈ t, q = if p r then f r else r := by
  rw [mem_def, rows_modifyWhere, List.mem_map]
  exact ⟨fun ⟨r, hr, h⟩ => ⟨r, hr, h.symm⟩, fun ⟨r, hr, h⟩ => ⟨r, hr, h.symm⟩⟩

theorem mem_modify {q : ρ} :
    q ∈ t.modify k f hf ↔ ∃ r ∈ t, q = if key r = k then f r else r := by
  simp [modify, mem_modifyWhere]

theorem get_modify_self : (t.modify k f hf).get k = (t.get k).map f := by
  cases hg : t.get k with
  | none =>
    rw [Option.map_none, get_eq_none]
    intro q hq
    obtain ⟨r, hr, rfl⟩ := (mem_modify hf).1 hq
    have hne := get_eq_none.1 hg r hr
    simp [hne]
  | some r =>
    obtain ⟨hr, hk⟩ := get_eq_some.1 hg
    exact get_eq_some.2 ⟨(mem_modify hf).2 ⟨r, hr, by simp [hk]⟩, (hf r).trans hk⟩

theorem get_modify_ne {k' : κ} (hne : k' ≠ k) : (t.modify k f hf).get k' = t.get k' := by
  cases hg : t.get k' with
  | none =>
    rw [get_eq_none] at hg ⊢
    intro q hq
    obtain ⟨r, hr, rfl⟩ := (mem_modify hf).1 hq
    have hr' := hg r hr
    split
    · rwa [hf]
    · exact hr'
  | some r =>
    obtain ⟨hr, rfl⟩ := get_eq_some.1 hg
    exact get_eq_some.2 ⟨(mem_modify hf).2 ⟨r, hr, by rw [if_neg hne]⟩, rfl⟩

theorem get_modify {k' : κ} :
    (t.modify k f hf).get k' = if k' = k then (t.get k').map f else t.get k' := by
  split
  · next h => rw [h, get_modify_self hf]
  · next h => exact get_modify_ne hf h

end modify

/-! ## Growth -/

section growth

variable {τ : Type*} {fixed : ρ → τ} {t t' t'' : Table key}

/-- Rows may have been appended to `t`, and the columns `fixed` of its rows are as they were. -/
def Grows (fixed : ρ → τ) (t t' : Table key) : Prop := t.rows.map fixed <+: t'.rows.map fixed

omit [DecidableEq κ] in
theorem grows_refl (t : Table key) : Grows fixed t t := List.prefix_refl _

omit [DecidableEq κ] in
theorem Grows.trans (h : Grows fixed t t') (h' : Grows fixed t' t'') : Grows fixed t t'' :=
  List.IsPrefix.trans h h'

omit [DecidableEq κ] in
theorem grows_append {rs : List ρ} (h : t'.rows = t.rows ++ rs) : Grows fixed t t' := by
  rw [Grows, h, List.map_append]
  exact List.prefix_append _ _

omit [DecidableEq κ] in
theorem grows_map {f : ρ → ρ} (h : t'.rows = t.rows.map f) (hf : ∀ r, fixed (f r) = fixed r) :
    Grows fixed t t' := by
  have heq : t'.rows.map fixed = t.rows.map fixed := by
    rw [h, List.map_map]
    exact List.map_congr_left fun r _ => hf r
  rw [Grows, heq]

theorem grows_insert? {r : ρ} (h : t.insert? r = some t') : Grows fixed t t' :=
  grows_append (insert?_eq_some h).1

theorem grows_insertAll? {rs : List ρ} (h : t.insertAll? rs = some t') : Grows fixed t t' :=
  grows_append (insertAll?_rows h)

omit [DecidableEq κ] in
theorem grows_modifyWhere {p : ρ → Bool} {f : ρ → ρ} (hkey : ∀ r, key (f r) = key r)
    (hf : ∀ r, fixed (f r) = fixed r) : Grows fixed t (t.modifyWhere p f hkey) := by
  refine grows_map (rows_modifyWhere hkey) fun r => ?_
  split
  · exact hf r
  · rfl

theorem grows_modify {k : κ} {f : ρ → ρ} (hkey : ∀ r, key (f r) = key r)
    (hf : ∀ r, fixed (f r) = fixed r) : Grows fixed t (t.modify k f hkey) :=
  grows_modifyWhere hkey hf

end growth

end Table

/-! ## Lists of rows by key -/

section filter

variable [DecidableEq κ] {key : ρ → κ} {l : List ρ}

theorem filter_key_nil {k : κ} (h : k ∉ l.map key) : l.filter (fun r => key r = k) = [] := by
  rw [List.filter_eq_nil_iff]
  intro r hr
  simpa using fun he : key r = k => h (he ▸ List.mem_map_of_mem hr)

/-- A list whose keys differ has one row with the key of a given member. -/
theorem filter_key_singleton {r : ρ} (hnd : (l.map key).Nodup) (hr : r ∈ l) :
    l.filter (fun q => key q = key r) = [r] := by
  induction l with
  | nil => cases hr
  | cons q l ih =>
    simp only [List.map_cons, List.nodup_cons] at hnd
    rcases List.mem_cons.1 hr with rfl | hr
    · simp [filter_key_nil hnd.1]
    · have hne : key q ≠ key r := fun he => hnd.1 (he ▸ List.mem_map_of_mem hr)
      simp [hne, ih hnd.2 hr]

end filter

/-! ## Column-wise updates -/

/-- The value a column holds after a session that loaded `loaded` and left `updated` commits
over the stored value `stored`. -/
def writeColumn {α : Type*} [DecidableEq α] (loaded updated stored : α) : α :=
  if updated = loaded then stored else updated

section writeColumn

variable {α : Type*} [DecidableEq α] {loaded updated stored : α}

@[simp] theorem writeColumn_same : writeColumn loaded loaded stored = stored := by
  simp [writeColumn]

/-- A session that loaded the stored value writes what it left. -/
@[simp] theorem writeColumn_current : writeColumn stored updated stored = updated := by
  unfold writeColumn
  split <;> simp [*]

theorem writeColumn_of_ne (h : updated ≠ loaded) :
    writeColumn loaded updated stored = updated := by
  simp [writeColumn, h]

theorem writeColumn_eq_or : writeColumn loaded updated stored = stored ∨
    writeColumn loaded updated stored = updated := by
  unfold writeColumn
  split
  · exact .inl rfl
  · exact .inr rfl

end writeColumn

end NotificationSystem.Lib
