import NotificationSystem.Requests

/-!
# Idempotency records and their batches

The key of a bulk creation is stored twice, in the record and in the batch. Requests and
cleaners read a record in one transaction and act on it in another, so they hold snapshots
of records that may be gone, or replaced, when they act.

* `Created` — what a commit writes.
* `Recorded` — every record is backed by its batch, and every snapshot is of an expired
  record.
-/

namespace NotificationSystem

open Lib

variable {env : Deployment} {s s' : State} {a : Action}

/-- The number of notification rows of a batch. -/
def Store.batchSize (st : Store) (batchId : Uuid) : Nat :=
  st.notifications.rows.countP (·.batchId = batchId)

theorem batchSize_of_members {st st' : Store} (h : st'.members = st.members) (batchId : Uuid) :
    st'.batchSize batchId = st.batchSize batchId := by
  have key (st : Store) : st.batchSize batchId = st.members.countP (·.1 = batchId) := by
    rw [Store.members, List.countP_map]
    rfl
  rw [key, h, ← key]

/-! ## Freeing a batch's key -/

/-- The batch after the keys of the selected records' batches have been freed. -/
def NotificationBatch.releasedBy (b : NotificationBatch) (selected : List IdempotencyKey) :
    NotificationBatch :=
  if selected.any (·.batchId = some b.id) then { b with idempotencyKey := none } else b

section release

variable {b b' : NotificationBatch} {selected : List IdempotencyKey} {st : Store} {key : String}

@[simp] theorem releasedBy_id : (b.releasedBy selected).id = b.id := by
  unfold NotificationBatch.releasedBy
  split <;> rfl

@[simp] theorem releasedBy_nil : b.releasedBy [] = b := rfl

theorem releasedBy_of_not_mem (h : ∀ x ∈ selected, x.batchId ≠ some b.id) :
    b.releasedBy selected = b := by
  rw [NotificationBatch.releasedBy, if_neg]
  simpa using h

theorem releasedBy_of_mem {x : IdempotencyKey} (hx : x ∈ selected) (hb : x.batchId = some b.id) :
    b.releasedBy selected = { b with idempotencyKey := none } := by
  rw [NotificationBatch.releasedBy, if_pos]
  simpa using ⟨x, hx, hb⟩

/-- A batch that still has a key was not released. -/
theorem releasedBy_of_key (h : (b.releasedBy selected).idempotencyKey = some key) :
    b.releasedBy selected = b ∧ ∀ x ∈ selected, x.batchId ≠ some b.id := by
  by_cases hx : ∃ x ∈ selected, x.batchId = some b.id
  · obtain ⟨x, hx, hb⟩ := hx
    rw [releasedBy_of_mem hx hb] at h
    cases h
  · have hnone : ∀ x ∈ selected, x.batchId ≠ some b.id := fun x hx' hb => hx ⟨x, hx', hb⟩
    exact ⟨releasedBy_of_not_mem hnone, hnone⟩

theorem releasedBy_cons (x : IdempotencyKey) :
    b.releasedBy (x :: selected) = (b.releasedBy [x]).releasedBy selected := by
  by_cases hx : x.batchId = some b.id <;> by_cases hs : selected.any (·.batchId = some b.id) <;>
    simp [NotificationBatch.releasedBy, hx, hs]

theorem rows_releaseBatchKey (x : IdempotencyKey) :
    (releaseBatchKey st x).batches.rows = st.batches.rows.map (·.releasedBy [x]) := by
  unfold releaseBatchKey
  split
  · next hnone => simp [NotificationBatch.releasedBy, hnone]
  · next batchId hsome =>
    rw [Table.modify, Table.rows_modifyWhere]
    refine List.map_congr_left fun b _ => ?_
    simp [NotificationBatch.releasedBy, hsome, eq_comm]

theorem rows_foldl_release : (selected.foldl releaseBatchKey st).batches.rows =
    st.batches.rows.map (·.releasedBy selected) := by
  induction selected generalizing st with
  | nil => simp
  | cons x rest ih =>
    rw [List.foldl_cons, ih, rows_releaseBatchKey, List.map_map]
    exact List.map_congr_left fun b _ => (releasedBy_cons x).symm

theorem rows_deleteExpired {now : Time} : (deleteExpired st selected now).batches.rows =
    st.batches.rows.map (·.releasedBy selected) := rows_foldl_release

theorem mem_deleteExpired {now : Time} {r : IdempotencyKey} :
    r ∈ (deleteExpired st selected now).idempotencyKeys ↔
      r ∈ st.idempotencyKeys ∧ now < r.expiresAt := by
  have hkeys : (selected.foldl releaseBatchKey st).idempotencyKeys = st.idempotencyKeys :=
    foldl_releaseBatchKey (·.idempotencyKeys) fun _ _ => by simp
  simp [deleteExpired, hkeys, IdempotencyKey.isExpired]

theorem batch_unique {batches : Table NotificationBatch.id} (h : uniqueBatchKeys batches)
    (hb : b ∈ batches) (hb' : b' ∈ batches) (hk : b.idempotencyKey = some key)
    (hk' : b'.idempotencyKey = some key) : b = b' := by
  rw [uniqueBatchKeys, List.Nodup, List.pairwise_filterMap] at h
  have : Std.Symm fun x y : NotificationBatch => ∀ k, x.idempotencyKey = some k →
      ∀ k', y.idempotencyKey = some k' → k ≠ k' :=
    ⟨fun x y hxy k hk k' hk' => (hxy k' hk' k hk).symm⟩
  by_contra hne
  exact h.forall hb hb' hne key hk key hk' rfl

theorem nodup_released {rows : List NotificationBatch}
    (h : (rows.filterMap (·.idempotencyKey)).Nodup) :
    ((rows.map (·.releasedBy selected)).filterMap (·.idempotencyKey)).Nodup := by
  rw [List.Nodup, List.pairwise_filterMap] at h ⊢
  refine List.pairwise_map.2 (h.imp fun {x y} hxy k hk k' hk' => ?_)
  rw [(releasedBy_of_key hk).1] at hk
  rw [(releasedBy_of_key hk').1] at hk'
  exact hxy k hk k' hk'

end release

/-! ## What a commit writes -/

/-- What a committed `create_bulk` has written, where `expired` is the record it replaced. -/
structure Created (st : Store) (request : BulkNotificationRequest) (key requestHash : String)
    (expired : Option IdempotencyKey) (expiresAt : Time) (ids : Nat → Uuid)
    (stamps : Nat → Time) (st' : Store) (response : BulkNotificationResponse) : Prop where
  accepted : response = acceptedResponse (ids 0) request
  records : ∀ r, r ∈ st'.idempotencyKeys ↔
    (r ∈ st.idempotencyKeys ∧ ∀ x, expired = some x → r.key ≠ x.key) ∨
      r = ⟨key, requestHash, some (ids 0), some response, expiresAt⟩
  free : ∀ r ∈ st.idempotencyKeys, (∀ x, expired = some x → r.key ≠ x.key) → r.key ≠ key
  batches : st'.batches.rows = st.batches.rows.map (·.releasedBy expired.toList) ++
    [newBatch request key requestHash ids]
  unique : uniqueBatchKeys st'.batches
  perBatch : uniquePerBatchSubscriber st'.notifications
  notifications : st'.notifications.rows =
    st.notifications.rows ++ newNotifications request ids stamps

section created

variable {st st' : Store} {request : BulkNotificationRequest} {key requestHash : String}
  {expired : Option IdempotencyKey} {expiresAt : Time} {ids : Nat → Uuid} {stamps : Nat → Time}
  {response : BulkNotificationResponse}

/-- The store after the expired record and its batch's key are gone. -/
def withoutExpired (st : Store) : Option IdempotencyKey → Store
  | none => st
  | some x => removeExpired st x

theorem rows_withoutExpired : (withoutExpired st expired).batches.rows =
    st.batches.rows.map (·.releasedBy expired.toList) := by
  cases expired with
  | none => simp [withoutExpired]
  | some x => exact rows_releaseBatchKey x

theorem mem_withoutExpired {r : IdempotencyKey} : r ∈ (withoutExpired st expired).idempotencyKeys ↔
    r ∈ st.idempotencyKeys ∧ ∀ x, expired = some x → r.key ≠ x.key := by
  cases expired with
  | none => simp [withoutExpired]
  | some x => simp [withoutExpired, removeExpired]

theorem created_of_commit
    (h : commitBulk st request key requestHash (.newRecord expired expiresAt) ids stamps =
      .ok (st', response)) :
    Created st request key requestHash expired expiresAt ids stamps st' response := by
  obtain ⟨st₁, batches, notifications, outbox, rfl, hwrite, hb, hn, -, hunique, hper, rfl⟩ :=
    commitBulk_ok h
  have hframe := (writeRecord_frame hwrite).1
  simp only [writeRecord] at hwrite
  split at hwrite
  · cases hwrite
  · next keys hkeys =>
    cases hwrite
    refine ⟨rfl, fun r => ?_, fun r hr hx => ?_, ?_, hunique, hper, ?_⟩
    · rw [← mem_withoutExpired]
      exact Table.mem_insert? hkeys
    · exact (Table.insert?_eq_some hkeys).2 r (mem_withoutExpired.2 ⟨hr, hx⟩)
    · rw [← rows_withoutExpired]
      exact (Table.insert?_eq_some hb).1
    · rw [← hframe]
      exact Table.insertAll?_rows hn

theorem batchSize_created (h : Created st request key requestHash expired expiresAt ids stamps
    st' response) (batchId : Uuid) :
    st'.batchSize batchId = st.batchSize batchId +
      if batchId = ids 0 then (distinctRecipients request.recipientIds).length else 0 := by
  have hnew : ∀ n ∈ newNotifications request ids stamps, n.batchId = ids 0 := by
    intro n hn
    obtain ⟨i, r, -, rfl⟩ := mem_newNotifications hn
    rfl
  rw [Store.batchSize, h.notifications, List.countP_append]
  congr 1
  split
  · next heq =>
    rw [List.countP_eq_length.2 fun n hn => by simp [hnew n hn, heq]]
    simp [newNotifications]
  · next hne =>
    rw [List.countP_eq_zero]
    intro n hn
    simpa [hnew n hn] using fun heq : ids 0 = batchId => hne heq.symm

theorem batchSize_fresh (hfresh : ids 0 ∉ st.uuids) : st.batchSize (ids 0) = 0 := by
  rw [Store.batchSize, List.countP_eq_zero]
  intro n hn
  simpa using fun heq : n.batchId = ids 0 => hfresh (heq ▸ mem_uuids_of_batchId hn)

theorem mem_created_batches (h : Created st request key requestHash expired expiresAt ids stamps
    st' response) {b : NotificationBatch} :
    b ∈ st'.batches ↔ (∃ b₀ ∈ st.batches, b = b₀.releasedBy expired.toList) ∨
      b = newBatch request key requestHash ids := by
  rw [Table.mem_def, h.batches, List.mem_append, List.mem_map, List.mem_singleton]
  exact or_congr_left ⟨fun ⟨b₀, hb, he⟩ => ⟨b₀, hb, he.symm⟩, fun ⟨b₀, hb, he⟩ => ⟨b₀, hb, he.symm⟩⟩

end created

/-! ## The invariant -/

/-- The batch `b` is the one that the record `r` was committed with. -/
structure Store.Backs (st : Store) (b : NotificationBatch) (r : IdempotencyKey) : Prop where
  batchId : r.batchId = some b.id
  key : b.idempotencyKey = some r.key
  requestHash : b.requestHash = some r.requestHash
  response : r.responsePayload = some ⟨b.id, "accepted", st.batchSize b.id⟩

/-- A record that a cleaner has selected, or that a request is about to replace. -/
def State.Snapshot (s : State) (x : IdempotencyKey) : Prop :=
  (∃ c selected, s.cleaners c = some selected ∧ x ∈ selected) ∨
    ∃ q r expiresAt, s.requests q = some r ∧ r.phase = .reserved (.newRecord (some x) expiresAt)

/-- The reservation replaces an expired record of this key, or none. -/
def Reservation.Replaces (key : String) : Reservation → Prop
  | .newRecord expired _ => ∀ x, expired = some x → x.key = key
  | .existing _ => False

/-- Every record is backed by its batch, and every snapshot is of an expired record, which no
later record shares a batch with. -/
structure Recorded (s : State) : Prop where
  unique : uniqueBatchKeys s.store.batches
  perBatch : uniquePerBatchSubscriber s.store.notifications
  records : ∀ r ∈ s.store.idempotencyKeys, ∃ b ∈ s.store.batches, s.store.Backs b r
  snapshots : ∀ x, s.Snapshot x → x.expiresAt ≤ s.now ∧
    (∃ b ∈ s.store.batches, x.batchId = some b.id) ∧
      ∀ r ∈ s.store.idempotencyKeys, r.batchId = x.batchId → r = x
  reservations : ∀ q r reservation, s.requests q = some r → r.phase = .reserved reservation →
    reservation.Replaces r.key

theorem recorded_initial (now : Time) : Recorded (State.initial now) where
  unique := List.nodup_nil
  perBatch := List.nodup_nil
  records _ h := absurd h Table.not_mem_empty
  snapshots x h := by
    rcases h with ⟨c, selected, hc, -⟩ | ⟨q, r, expiresAt, hq, -⟩
    · cases hc
    · cases hq
  reservations _ _ _ h := by cases h

/-- A request reserves a new record, in place of one of its own key or of none. -/
theorem Recorded.reservation (hs : Recorded s) {q : Nat} {x : Request} {reservation : Reservation}
    (hq : s.requests q = some x) (hphase : x.phase = .reserved reservation) :
    ∃ expired expiresAt, reservation = .newRecord expired expiresAt ∧
      ∀ y, expired = some y → y.key = x.key := by
  have hrepl := hs.reservations q x reservation hq hphase
  cases reservation with
  | newRecord expired expiresAt => exact ⟨expired, expiresAt, rfl, hrepl⟩
  | existing _ => exact hrepl.elim

theorem Recorded.request_store (hs : Recorded s) {q : Nat} {a : RequestAction}
    (h : RequestChange env s q a s') :
    s'.store = s.store ∨ ∃ x expired expiresAt ids stamps response, s.requests q = some x ∧
      x.phase = .reserved (.newRecord expired expiresAt) ∧
      (∀ y, expired = some y → y.key = x.key) ∧
      s.store.Fresh (bulkIds ids (distinctRecipients x.body.recipientIds).length) ∧
      commitBulk s.store x.body x.key (env.requestHash x.body) (.newRecord expired expiresAt)
        ids stamps = .ok (s'.store, response) := by
  cases h with
  | @committed x reservation ids stamps response _ hq hphase hfresh hcom =>
    obtain ⟨expired, expiresAt, rfl, hrepl⟩ := hs.reservation hq hphase
    exact .inr ⟨x, expired, expiresAt, ids, stamps, response, hq, hphase, hrepl, hfresh, hcom⟩
  | submitted _ _ _ hstore | refused _ _ _ hstore | read _ _ _ _ _ _ hstore
  | rejected _ _ _ _ _ _ hstore | found _ _ _ hstore | aborted _ _ _ hstore
  | released _ _ _ _ _ hstore | crashed _ _ hstore => exact .inl hstore

theorem Recorded.record_unique (hs : Recorded s) {r x : IdempotencyKey}
    (hr : r ∈ s.store.idempotencyKeys) (hx : x ∈ s.store.idempotencyKeys)
    (h : r.batchId = x.batchId) : r = x := by
  obtain ⟨b, hb, hbacks⟩ := hs.records r hr
  obtain ⟨b', hb', hbacks'⟩ := hs.records x hx
  have hid : b.id = b'.id :=
    Option.some.inj (hbacks.batchId.symm.trans (h.trans hbacks'.batchId))
  obtain rfl := Table.eq_of_key hb hb' hid
  exact Table.eq_of_key hr hx (Option.some.inj (hbacks.key.symm.trans hbacks'.key))

theorem recorded_of_store (hs : Recorded s) (hnow : s.now ≤ s'.now)
    (hb : s'.store.batches = s.store.batches)
    (hk : s'.store.idempotencyKeys = s.store.idempotencyKeys)
    (hmembers : s'.store.members = s.store.members)
    (hsnap : ∀ x, s'.Snapshot x →
      s.Snapshot x ∨ x ∈ s.store.idempotencyKeys ∧ x.expiresAt ≤ s'.now)
    (hres : ∀ q r reservation, s'.requests q = some r → r.phase = .reserved reservation →
      reservation.Replaces r.key) : Recorded s' := by
  have hper : s'.store.members.Nodup := hmembers ▸ hs.perBatch
  refine ⟨hb ▸ hs.unique, hper, fun r hr => ?_, fun x hx => ?_, hres⟩
  · rw [hk] at hr
    obtain ⟨b, hmem, hbacks⟩ := hs.records r hr
    exact ⟨b, hb ▸ hmem, hbacks.batchId, hbacks.key, hbacks.requestHash, by
      rw [batchSize_of_members hmembers]; exact hbacks.response⟩
  · rw [hb, hk]
    rcases hsnap x hx with hx | ⟨hx, hexp⟩
    · obtain ⟨hexp, hbatch, hsame⟩ := hs.snapshots x hx
      exact ⟨hexp.trans hnow, hbatch, hsame⟩
    · obtain ⟨b, hmem, hbacks⟩ := hs.records x hx
      exact ⟨hexp, ⟨b, hmem, hbacks.batchId⟩, fun r hr => hs.record_unique hr hx⟩

/-- What `reserve_or_get` reserves: a new record in place of one that has expired, or of none. -/
theorem reserveOrGet_ok {cfg : Settings} {st : Store} {key requestHash : String} {t₁ t₂ : Time}
    {reservation : Reservation}
    (h : reserveOrGet cfg st key requestHash t₁ t₂ = .ok reservation) :
    (∃ expiresAt, reservation = .newRecord (st.idempotencyKeys.get key) expiresAt ∧
      ∀ x, st.idempotencyKeys.get key = some x → x.expiresAt ≤ t₁) ∨
      ∃ x, st.idempotencyKeys.get key = some x ∧ x.responsePayload = none := by
  have new {expired : Option IdempotencyKey} (h : newRecord cfg expired t₂ = .ok reservation) :
      ∃ expiresAt, reservation = .newRecord expired expiresAt := by
    unfold newRecord at h
    split at h
    · cases h
    · next expiresAt _ =>
      cases h
      exact ⟨expiresAt, rfl⟩
  unfold reserveOrGet at h
  split at h
  · next hget =>
    obtain ⟨expiresAt, rfl⟩ := new h
    exact .inl ⟨expiresAt, by rw [hget], fun x hx => by rw [hget] at hx; cases hx⟩
  · next x hget =>
    split at h
    · next hexp =>
      obtain ⟨expiresAt, rfl⟩ := new h
      refine .inl ⟨expiresAt, by rw [hget], fun y hy => ?_⟩
      obtain rfl := Option.some.inj (hget.symm.trans hy)
      simpa [IdempotencyKey.isExpired] using hexp
    · split at h
      · cases h
      · split at h
        · cases h
        · next hnone => exact .inr ⟨x, hget, hnone⟩

theorem afterRead_reserved {e : Except NotReserved Reservation} {reservation : Reservation}
    (h : afterRead e = .reserved reservation) : e = .ok reservation := by
  match e with
  | .ok _ => cases h; rfl
  | .error .conflict | .error (.recordExists _) | .error .overflow => cases h

theorem afterFind_ne_reserved {requestHash : String} {existing : Option IdempotencyKey}
    {reservation : Reservation} : afterFind requestHash existing ≠ .reserved reservation := by
  unfold afterFind
  split
  · nofun
  · split
    · nofun
    · split <;> nofun

/-- A request that reads finds no record of its key, or an expired one, when it reserves. -/
theorem Recorded.reserved_of_read (hs : Recorded s) {key requestHash : String} {t₁ t₂ : Time}
    {reservation : Reservation}
    (h : reserveOrGet env.toSettings s.store key requestHash t₁ t₂ = .ok reservation) :
    ∃ expiresAt, reservation = .newRecord (s.store.idempotencyKeys.get key) expiresAt ∧
      ∀ x, s.store.idempotencyKeys.get key = some x → x.expiresAt ≤ t₁ := by
  rcases reserveOrGet_ok h with h | ⟨x, hx, hnone⟩
  · exact h
  · obtain ⟨b, -, hbacks⟩ := hs.records x (Table.mem_of_get hx)
    cases hnone.symm.trans hbacks.response

theorem recorded_of_request (hs : Recorded s) {q : Nat} {r : Request} (hnow : s.now ≤ s'.now)
    (hstore : s'.store = s.store) (hcleaners : s'.cleaners = s.cleaners)
    (hothers : ∀ p, p ≠ q → s'.requests p = s.requests p) (hq : s'.requests q = some r)
    (hphase : ∀ reservation, r.phase = .reserved reservation → reservation.Replaces r.key ∧
      ∀ x expiresAt, reservation = .newRecord (some x) expiresAt →
        x ∈ s.store.idempotencyKeys ∧ x.expiresAt ≤ s'.now) : Recorded s' := by
  refine recorded_of_store hs hnow (by rw [hstore]) (by rw [hstore]) (by rw [hstore])
    (fun x hx => ?_) (fun p k reservation hp hk => ?_)
  · rcases hx with ⟨c, selected, hc, hx⟩ | ⟨p, k, expiresAt, hp, hk⟩
    · exact .inl (.inl ⟨c, selected, hcleaners ▸ hc, hx⟩)
    · by_cases hpq : p = q
      · subst hpq
        obtain rfl := Option.some.inj (hq.symm.trans hp)
        exact .inr ((hphase _ hk).2 x expiresAt rfl)
      · exact .inl (.inr ⟨p, k, expiresAt, hothers p hpq ▸ hp, hk⟩)
  · by_cases hpq : p = q
    · subst hpq
      obtain rfl := Option.some.inj (hq.symm.trans hp)
      exact (hphase _ hk).1
    · exact hs.reservations p k reservation (hothers p hpq ▸ hp) hk

/-- The record that a commit replaces shares its batch with no other one. -/
theorem Recorded.not_released (hs : Recorded s) {x r : IdempotencyKey} {b : NotificationBatch}
    (hx : s.Snapshot x) (hr : r ∈ s.store.idempotencyKeys) (hne : r.key ≠ x.key)
    (hb : r.batchId = some b.id) : x.batchId ≠ some b.id := fun heq =>
  hne (by rw [(hs.snapshots x hx).2.2 r hr (hb.trans heq.symm)])

theorem recorded_commit (hs : Recorded s) {q : Nat} {r : Request} {ids : Nat → Uuid}
    {stamps : Nat → Time} {reservation : Reservation} {response : BulkNotificationResponse}
    (hnow : s.now ≤ s'.now) (hcleaners : s'.cleaners = s.cleaners)
    (hothers : ∀ p, p ≠ q → s'.requests p = s.requests p) (hq : s.requests q = some r)
    (hphase : r.phase = .reserved reservation)
    (hfresh : s.store.Fresh (bulkIds ids (distinctRecipients r.body.recipientIds).length))
    (hcom : commitBulk s.store r.body r.key (env.requestHash r.body) reservation ids stamps =
      .ok (s'.store, response))
    (hq' : s'.requests q = some { r with phase := .releasing (.accepted response) }) :
    Recorded s' := by
  have hnew : ids 0 ∉ s.store.uuids := bulkIds_fresh hfresh (Nat.zero_le _)
  obtain ⟨expired, expiresAt, rfl, -⟩ := hs.reservation hq hphase
  have hc := created_of_commit hcom
  have hreplaced : ∀ x, expired = some x → s.Snapshot x :=
    fun x hx => .inr ⟨q, r, expiresAt, hq, by rw [hphase, hx]⟩
  have hsnap : ∀ x, s'.Snapshot x → s.Snapshot x := by
    rintro x (⟨c, selected, hsel, hx⟩ | ⟨p, k, e, hp, hk⟩)
    · exact .inl ⟨c, selected, hcleaners ▸ hsel, hx⟩
    · by_cases hpq : p = q
      · subst hpq
        obtain rfl := Option.some.inj (hq'.symm.trans hp)
        cases hk
      · exact .inr ⟨p, k, e, hothers p hpq ▸ hp, hk⟩
  refine ⟨hc.unique, hc.perBatch, fun k hk => ?_, fun x hx => ?_,
    fun p k reservation hp hk => ?_⟩
  · rcases (hc.records k).1 hk with ⟨hk, hkey⟩ | rfl
    · obtain ⟨b, hb, hbacks⟩ := hs.records k hk
      have hsame : b.releasedBy expired.toList = b := releasedBy_of_not_mem fun x hx =>
        hs.not_released (hreplaced x (Option.mem_toList.1 hx)) hk
          (hkey x (Option.mem_toList.1 hx)) hbacks.batchId
      have hne : b.id ≠ ids 0 := fun he => hnew (he ▸ mem_uuids_of_batch hb)
      refine ⟨b, (mem_created_batches hc).2 (.inl ⟨b, hb, hsame.symm⟩), hbacks.batchId,
        hbacks.key, hbacks.requestHash, ?_⟩
      rw [batchSize_created hc, if_neg hne]
      exact hbacks.response
    · refine ⟨_, (mem_created_batches hc).2 (.inr rfl), rfl, rfl, rfl, ?_⟩
      show some response = some ⟨ids 0, "accepted", s'.store.batchSize (ids 0)⟩
      rw [batchSize_created hc, if_pos rfl, batchSize_fresh hnew, Nat.zero_add, hc.accepted]
      rfl
  · obtain ⟨hexp, ⟨b, hb, hbatch⟩, hsame⟩ := hs.snapshots x (hsnap x hx)
    refine ⟨hexp.trans hnow, ⟨_, (mem_created_batches hc).2 (.inl ⟨b, hb, rfl⟩), by simpa⟩,
      fun k hk hkx => ?_⟩
    rcases (hc.records k).1 hk with ⟨hk, -⟩ | rfl
    · exact hsame k hk hkx
    · have heq : ids 0 = b.id := Option.some.inj (hkx.trans hbatch)
      exact absurd (heq ▸ mem_uuids_of_batch hb) hnew
  · by_cases hpq : p = q
    · subst hpq
      obtain rfl := Option.some.inj (hq'.symm.trans hp)
      cases hk
    · exact hs.reservations p k reservation (hothers p hpq ▸ hp) hk

theorem recorded_delete (hs : Recorded s) {c : Nat} {t₂ : Time} {selected : List IdempotencyKey}
    (hc : s.cleaners c = some selected) (ht : s.now ≤ t₂) :
    Recorded { s with
      now := t₂
      store := deleteExpired s.store selected t₂
      cleaners := Function.update s.cleaners c none } := by
  have hbatch {b : NotificationBatch} (hb : b ∈ s.store.batches) :
      b.releasedBy selected ∈ (deleteExpired s.store selected t₂).batches := by
    rw [Table.mem_def, rows_deleteExpired]
    exact List.mem_map_of_mem hb
  refine ⟨?_, by simpa using hs.perBatch, fun r hr => ?_, fun x hx => ?_, hs.reservations⟩
  · show ((deleteExpired s.store selected t₂).batches.rows.filterMap (·.idempotencyKey)).Nodup
    rw [rows_deleteExpired]
    exact nodup_released hs.unique
  · obtain ⟨hr, hlive⟩ := mem_deleteExpired.1 hr
    obtain ⟨b, hb, hbacks⟩ := hs.records r hr
    -- the batch of a record that has not expired was not selected
    have hsame : b.releasedBy selected = b := by
      refine releasedBy_of_not_mem fun x hx heq => ?_
      obtain ⟨hexp, -, hshare⟩ := hs.snapshots x (.inl ⟨c, selected, hc, hx⟩)
      obtain rfl := hshare r hr (hbacks.batchId.trans heq.symm)
      exact absurd (hexp.trans ht) (not_le.2 hlive)
    refine ⟨b, hsame ▸ hbatch hb, hbacks.batchId, hbacks.key, hbacks.requestHash, ?_⟩
    simpa [Store.batchSize] using hbacks.response
  · have hx' : s.Snapshot x := by
      rcases hx with ⟨c', selected', hc', hx⟩ | hx
      · simp only [Function.update_apply] at hc'
        split at hc'
        · cases hc'
        · exact .inl ⟨c', selected', hc', hx⟩
      · exact .inr hx
    obtain ⟨hexp, ⟨b, hb, hid⟩, hshare⟩ := hs.snapshots x hx'
    exact ⟨hexp.trans ht, ⟨_, hbatch hb, by simpa⟩,
      fun r hr => hshare r (mem_deleteExpired.1 hr).1⟩

theorem recorded_step (hs : Recorded s) (h : ApiChange env s a s') : Recorded s' := by
  cases h with
  | quiet hnow hreq hcl hb hk hmembers =>
    refine recorded_of_store hs hnow hb hk hmembers (fun x hx => .inl ?_) (hreq ▸ hs.reservations)
    rwa [State.Snapshot, hreq, hcl] at hx
  | @request q a s' hnow hchange hcl hothers =>
    cases hchange with
    | submitted _ _ hq hstore => exact recorded_of_request hs hnow hstore hcl hothers hq nofun
    | refused _ _ hq hstore => exact recorded_of_request hs hnow hstore hcl hothers hq nofun
    | @read r t₁ t₂ _ _ _ _ h₂ ht hq hstore =>
      refine recorded_of_request hs hnow hstore hcl hothers hq fun reservation hphase => ?_
      obtain ⟨expiresAt, rfl, hexp⟩ := hs.reserved_of_read (afterRead_reserved hphase)
      refine ⟨fun x hx => Table.get_key hx, fun x e he => ?_⟩
      injection he with hx _
      exact ⟨Table.mem_of_get hx, (hexp x hx).trans (h₂.trans ht.ge)⟩
    | committed hq hphase hfresh hcom hq' =>
      exact recorded_commit hs hnow hcl hothers hq hphase hfresh hcom hq'
    | rejected _ _ _ _ _ hq hstore =>
      refine recorded_of_request hs hnow hstore hcl hothers hq fun reservation hphase => ?_
      simp only at hphase
      split at hphase <;> cases hphase
    | found _ _ hq hstore =>
      exact recorded_of_request hs hnow hstore hcl hothers hq fun reservation hphase =>
        (afterFind_ne_reserved hphase).elim
    | aborted _ _ hq hstore => exact recorded_of_request hs hnow hstore hcl hothers hq nofun
    | released _ _ _ ho hq hstore =>
      refine recorded_of_request hs hnow hstore hcl hothers hq fun reservation hphase => ?_
      simp only at hphase
      rw [hphase] at ho
      cases ho
    | crashed _ hq hstore => exact recorded_of_request hs hnow hstore hcl hothers hq nofun
  | @select c t₁ ht =>
    refine recorded_of_store hs ht rfl rfl rfl (fun x hx => ?_) hs.reservations
    rcases hx with ⟨c', selected, hc', hx⟩ | hx
    · simp only [Function.update_apply] at hc'
      split at hc'
      · cases hc'
        have hx := List.mem_filter.1 hx
        exact .inr ⟨hx.1, by simpa [IdempotencyKey.isExpired] using hx.2⟩
      · exact .inl (.inl ⟨c', selected, hc', hx⟩)
    · exact .inl (.inr hx)
  | delete hc ht => exact recorded_delete hs hc ht
  | @stop c =>
    refine recorded_of_store hs le_rfl rfl rfl rfl (fun x hx => .inl ?_) hs.reservations
    rcases hx with ⟨c', selected, hc', hx⟩ | hx
    · simp only [Function.update_apply] at hc'
      split at hc'
      · cases hc'
      · exact .inl ⟨c', selected, hc', hx⟩
    · exact .inr hx

theorem recorded_reach {ok : State → Action → Prop} (h : (machine env).Reach ok s) :
    Recorded s := by
  refine Machine.Reach.induct ?_ ?_ h
  · rintro _ ⟨now, rfl⟩
    exact recorded_initial now
  · exact fun t a t' _ ht _ hstep => recorded_step ht (apiChange_of_step hstep)

end NotificationSystem
