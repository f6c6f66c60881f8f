import NotificationSystem.ExactlyOnce

/-!
# Reusing a key

A batch keeps its idempotency key until the record that points at it goes, so a key without a
record is free. `cleanup_expired` breaks this: it frees the batches of the records that have
expired at its first reading of the clock, and deletes those that have expired at its second.

* `Matched` — every key that a batch holds has a record that points at the batch.
* `DeletesSelected` — the condition on the cleanups under which this is invariant.
* `Storable` — the columns hold the key and the body.
* `key_reusable` — then a key is always reusable after expiry.
* `key_not_reusable` — without it a key may be refused for ever.
-/

namespace NotificationSystem

open Lib

variable {env : Deployment} {s s' u : State} {a : Action} {key : String} {q : Nat}

/-- A cleanup deletes only what it has selected: every record that has expired at its second
reading had expired at its first. -/
def DeletesSelected (s : State) : Action → Prop
  | .cleaner c (.delete t₂) =>
    ∀ selected, s.cleaners c = some selected → ∀ r ∈ s.store.idempotencyKeys, r.expiresAt ≤ t₂ →
      r ∈ selected
  | _ => True

/-- Every column holds the value that a request for `body` under `key` writes to it. -/
structure Storable (body : BulkNotificationRequest) (key : String) : Prop where
  batch : storableBatch body key = true
  recipients : body.recipientIds.all storableInteger = true

/-- Every key that a batch holds has a record that points at the batch. -/
def Matched (s : State) : Prop :=
  ∀ b ∈ s.store.batches, ∀ key, b.idempotencyKey = some key →
    ∃ r, s.store.idempotencyKeys.get key = some r ∧ r.batchId = some b.id

theorem matched_of_store (hm : Matched s) (hb : s'.store.batches = s.store.batches)
    (hk : s'.store.idempotencyKeys = s.store.idempotencyKeys) : Matched s' := by
  intro b hmem key hkey
  rw [hk]
  exact hm b (hb ▸ hmem) key hkey

theorem matched_step (hs : Recorded s) (hm : Matched s) (hok : DeletesSelected s a)
    (h : ApiChange env s a s') : Matched s' := by
  cases h with
  | quiet _ _ _ hb hk => exact matched_of_store hm hb hk
  | select | stop => exact hm
  | @delete c t₂ selected hc _ =>
    intro b hb key hkey
    obtain ⟨b₀, hb₀, rfl⟩ : ∃ b₀ ∈ s.store.batches, b₀.releasedBy selected = b := by
      rw [Table.mem_def, rows_deleteExpired] at hb
      exact List.mem_map.1 hb
    obtain ⟨hsame, hnone⟩ := releasedBy_of_key hkey
    rw [hsame] at hkey ⊢
    obtain ⟨r, hr, hid⟩ := hm b₀ hb₀ key hkey
    obtain ⟨hmem, rfl⟩ := Table.get_eq_some.1 hr
    -- had it expired, the record would have been selected and its batch released
    have hlive : t₂ < r.expiresAt := by
      by_contra hexp
      exact hnone r (hok selected hc r hmem (not_lt.1 hexp)) hid
    exact ⟨r, Table.get_of_mem (mem_deleteExpired.2 ⟨hmem, hlive⟩), hid⟩
  | request _ hchange =>
    rcases hs.request_store hchange with
      hstore | ⟨x, expired, expiresAt, ids, stamps, response, hq, hphase, hrepl, hfresh, hcom⟩
    · exact matched_of_store hm (by rw [hstore]) (by rw [hstore])
    · have hc := created_of_commit hcom
      intro b hb key hkey
      rcases (mem_created_batches hc).1 hb with ⟨b₀, hb₀, rfl⟩ | rfl
      · obtain ⟨hsame, -⟩ := releasedBy_of_key hkey
        have hb₀' : b₀.releasedBy expired.toList ∈ s'.store.batches := hb
        rw [hsame] at hkey hb₀' ⊢
        obtain ⟨r, hr, hid⟩ := hm b₀ hb₀ key hkey
        obtain ⟨hmem, rfl⟩ := Table.get_eq_some.1 hr
        refine ⟨r, Table.get_of_mem ((hc.records r).2 (.inl ⟨hmem, fun y hy heq => ?_⟩)), hid⟩
        -- the new batch holds the replaced record's key, so no other one does
        have hsame := batch_unique hc.unique hb₀' ((mem_created_batches hc).2 (.inr rfl)) hkey
          (by rw [heq, hrepl y hy]; rfl)
        have hids : b₀.id = ids 0 := congrArg NotificationBatch.id hsame
        exact bulkIds_fresh hfresh (Nat.zero_le _) (hids ▸ mem_uuids_of_batch hb₀)
      · cases hkey
        exact ⟨_, Table.get_of_mem ((hc.records _).2 (.inr rfl)), rfl⟩

theorem matched_reach (h : (machine env).Reach DeletesSelected s) : Matched s := by
  refine Machine.Reach.induct ?_ ?_ h
  · rintro _ ⟨now, rfl⟩ b hb
    exact absurd hb Table.not_mem_empty
  · exact fun t a t' ht hm hok hstep =>
      matched_step (recorded_reach ht) hm hok (apiChange_of_step hstep)

/-! ## A commit that succeeds -/

section commit

variable {x : Request} {expired : Option IdempotencyKey} {expiresAt : Time} {ids : Nat → Uuid}
  {stamps : Nat → Time}

theorem uniqueBatchKeys_created (hs : Recorded s) (hm : Matched s)
    (hfree : ∀ r, s.store.idempotencyKeys.get x.key = some r → expired = some r)
    {requestHash : String} {batches : Table NotificationBatch.id}
    (hb : (withoutExpired s.store expired).batches.insert?
      (newBatch x.body x.key requestHash ids) = some batches) : uniqueBatchKeys batches := by
  rw [uniqueBatchKeys, (Table.insert?_eq_some hb).1, rows_withoutExpired, List.filterMap_append]
  refine (nodup_released hs.unique).append (List.nodup_singleton _) fun key hk hk' => ?_
  obtain rfl : key = x.key := by simpa [newBatch] using hk'
  obtain ⟨b, hb, hkey⟩ := List.mem_filterMap.1 hk
  obtain ⟨b₀, hb₀, rfl⟩ := List.mem_map.1 hb
  obtain ⟨hsame, hnone⟩ := releasedBy_of_key hkey
  rw [hsame] at hkey
  obtain ⟨r, hr, hid⟩ := hm b₀ hb₀ x.key hkey
  exact hnone r (by simp [hfree r hr]) hid

variable (hfresh : s.store.Fresh (bulkIds ids (distinctRecipients x.body.recipientIds).length))

include hfresh

theorem perBatch_created (hs : Recorded s) {notifications : Table Notification.id}
    (hn : s.store.notifications.insertAll? (newNotifications x.body ids stamps) =
      some notifications) : uniquePerBatchSubscriber notifications := by
  rw [uniquePerBatchSubscriber, Table.insertAll?_rows hn, List.map_append]
  refine List.Nodup.append hs.perBatch nodup_newMembers fun p hp hp' => ?_
  obtain ⟨n, hn, rfl⟩ := List.mem_map.1 hp
  obtain ⟨m, hm, heq⟩ := List.mem_map.1 hp'
  obtain ⟨i, recipientId, -, rfl⟩ := mem_newNotifications hm
  have hid : ids 0 = n.batchId := (Prod.mk.inj heq).1
  exact bulkIds_fresh hfresh (Nat.zero_le _) (hid ▸ mem_uuids_of_batchId hn)

theorem commit_total (hs : Recorded s) (hm : Matched s) (hbody : Storable x.body x.key)
    (hfree : ∀ r, s.store.idempotencyKeys.get x.key = some r → expired = some r)
    (requestHash : String) :
    ∃ st, commitBulk s.store x.body x.key requestHash (.newRecord expired expiresAt) ids stamps =
      .ok (st, acceptedResponse (ids 0) x.body) := by
  have hframe : (withoutExpired s.store expired).notifications = s.store.notifications ∧
      (withoutExpired s.store expired).outbox = s.store.outbox := by
    cases expired <;> simp [withoutExpired, removeExpired]
  obtain ⟨keys, hkeys⟩ := Table.insert?_of_fresh
    (t := (withoutExpired s.store expired).idempotencyKeys)
    (r := ⟨x.key, requestHash, some (ids 0), some (acceptedResponse (ids 0) x.body), expiresAt⟩)
    fun r hr (hkey : r.key = x.key) => by
      obtain ⟨hmem, hne⟩ := mem_withoutExpired.1 hr
      exact hne r (hfree r (hkey ▸ Table.get_of_mem hmem)) rfl
  obtain ⟨batches, hb⟩ := Table.insert?_of_fresh (t := (withoutExpired s.store expired).batches)
    (r := newBatch x.body x.key requestHash ids) fun b hb (hid : b.id = ids 0) => by
      rw [Table.mem_def, rows_withoutExpired] at hb
      obtain ⟨b₀, hb₀, rfl⟩ := List.mem_map.1 hb
      rw [releasedBy_id] at hid
      exact bulkIds_fresh hfresh (Nat.zero_le _) (hid ▸ mem_uuids_of_batch hb₀)
  obtain ⟨notifications, hn⟩ := Table.insertAll?_of_fresh (t := s.store.notifications)
    (newNotifications_nodup hfresh stamps) fun n hn hmem => by
      obtain ⟨m, hm, hid⟩ := List.mem_map.1 hmem
      exact newNotification_fresh hfresh hm (hid ▸ mem_uuids_of_notification hn)
  obtain ⟨outbox, ho⟩ := Table.insertAll?_of_fresh (t := s.store.outbox)
    (newEvents_nodup hfresh stamps) fun e he hmem => by
      obtain ⟨f, hf, hid⟩ := List.mem_map.1 hmem
      exact newEvent_fresh hfresh hf (hid ▸ mem_uuids_of_event he)
  have hwrite : writeRecord s.store (.newRecord expired expiresAt) x.key requestHash
      (acceptedResponse (ids 0) x.body) =
        .ok { withoutExpired s.store expired with idempotencyKeys := keys } := by
    cases expired <;> simp only [writeRecord, withoutExpired, acceptedResponse] at hkeys ⊢ <;>
      rw [hkeys]
  have hguard : uniqueBatchKeys batches ∧ uniquePerBatchSubscriber notifications :=
    ⟨uniqueBatchKeys_created hs hm hfree hb, perBatch_created hfresh hs hn⟩
  simp only [newBatch] at hb
  simp only [commitBulk, hwrite, hframe.1, hframe.2, hb, hn, ho, hguard, hbody.batch,
    hbody.recipients]
  exact ⟨_, rfl⟩

end commit

theorem reserveOrGet_expired {cfg : Settings} {st : Store} {requestHash : String}
    {t₁ t₂ expiresAt : Time}
    (hexp : ∀ r, st.idempotencyKeys.get key = some r → r.expiresAt ≤ t₁)
    (hadd : addSeconds t₂ cfg.idempotencyTtlSeconds = some expiresAt) :
    reserveOrGet cfg st key requestHash t₁ t₂ =
      .ok (.newRecord (st.idempotencyKeys.get key) expiresAt) := by
  unfold reserveOrGet
  split
  · next hget => simp [newRecord, hadd, hget]
  · next r hget =>
    have hexpired : r.isExpired t₁ = true := by
      simpa [IdempotencyKey.isExpired] using hexp r hget
    simp [newRecord, hadd, hget, hexpired]

/-! ## The only request of a key -/

/-- The run has no further request for the key, and the request `q` is neither aborted nor
crashes, and can give its record an expiry. -/
def Undisturbed (env : Deployment) (key : String) (q : Nat) : Action → Prop
  | .request _ (.submit _ key') => key' ≠ key
  | .request p (.read _ t₂) => p = q → addSeconds t₂ env.idempotencyTtlSeconds ≠ none
  | .request p .abort | .request p .crash => p ≠ q
  | _ => True

/-- How the only request of a key proceeds: no live record, no record but the one it replaces,
and a batch that is not among the `old` ones. -/
inductive OnTrack (old : List NotificationBatch) (key : String) (s : State) : RequestPhase → Prop
  | locked : (∀ r, s.store.idempotencyKeys.get key = some r → r.expiresAt ≤ s.now) →
      OnTrack old key s .locked
  | reserved {expired : Option IdempotencyKey} {expiresAt : Time} :
      (∀ r, s.store.idempotencyKeys.get key = some r → expired = some r) →
      OnTrack old key s (.reserved (.newRecord expired expiresAt))
  | accepted {phase : RequestPhase} {response : BulkNotificationResponse} :
      phase.outcome? = some (.accepted response) → (∀ b ∈ old, b.id ≠ response.batchId) →
      OnTrack old key s phase

/-- The request `q` is on track, and every other one of its key is over. -/
structure Lone (old : List NotificationBatch) (key : String) (q : Nat) (s : State) : Prop where
  others : ∀ p x, p ≠ q → s.requests p = some x → x.key = key → x.phase.outcome? ≠ none
  kept : ∀ b ∈ old, ∃ b' ∈ s.store.batches, b'.id = b.id
  request : ∃ x, s.requests q = some x ∧ x.key = key ∧ Storable x.body x.key ∧
    OnTrack old key s x.phase

section lone

variable {old : List NotificationBatch}

theorem onTrack_mono {phase : RequestPhase} (h : OnTrack old key s phase) (hnow : s.now ≤ s'.now)
    (hsub : ∀ r, s'.store.idempotencyKeys.get key = some r →
      s.store.idempotencyKeys.get key = some r) : OnTrack old key s' phase := by
  cases h with
  | locked hexp => exact .locked fun r hr => (hexp r (hsub r hr)).trans hnow
  | reserved hrepl => exact .reserved fun r hr => hrepl r (hsub r hr)
  | accepted ho hold => exact .accepted ho hold

theorem batches_stay (hs : Recorded s) (h : ApiChange env s a s') {b : NotificationBatch}
    (hb : b ∈ s.store.batches) : ∃ b' ∈ s'.store.batches, b'.id = b.id := by
  cases h with
  | quiet _ _ _ heq => exact ⟨b, heq ▸ hb, rfl⟩
  | select | stop => exact ⟨b, hb, rfl⟩
  | @delete c t₂ selected _ _ =>
    refine ⟨b.releasedBy selected, ?_, releasedBy_id⟩
    rw [Table.mem_def, rows_deleteExpired]
    exact List.mem_map_of_mem hb
  | request _ hchange =>
    rcases hs.request_store hchange with
      hstore | ⟨x, expired, expiresAt, ids, stamps, response, -, -, -, -, hcom⟩
    · exact ⟨b, hstore ▸ hb, rfl⟩
    · exact ⟨b.releasedBy expired.toList,
        (mem_created_batches (created_of_commit hcom)).2 (.inl ⟨b, hb, rfl⟩), releasedBy_id⟩

/-- A request that is over, or of another key, stays so and adds no record of the key. -/
theorem other_request (hs : Recorded s) {p : Nat} {b : RequestAction}
    (h : RequestChange env s p b s') (hund : Undisturbed env key q (.request p b))
    (hover : ∀ x, s.requests p = some x → x.key = key → x.phase.outcome? ≠ none) :
    (∀ x, s'.requests p = some x → x.key = key → x.phase.outcome? ≠ none) ∧
      ∀ r, s'.store.idempotencyKeys.get key = some r →
        s.store.idempotencyKeys.get key = some r := by
  -- a request that is not over is of another key
  have other {x : Request} (hx : s.requests p = some x) (hnone : x.phase.outcome? = none) :
      x.key ≠ key := fun hkey => hover x hx hkey hnone
  -- only a commit writes
  have unwritten {x : Request} (hx : s'.requests p = some x) (hstore : s'.store = s.store)
      (hend : x.key = key → x.phase.outcome? ≠ none) :
      (∀ x, s'.requests p = some x → x.key = key → x.phase.outcome? ≠ none) ∧
        ∀ r, s'.store.idempotencyKeys.get key = some r →
          s.store.idempotencyKeys.get key = some r := by
    refine ⟨fun y hy => ?_, fun r hr => hstore ▸ hr⟩
    obtain rfl := Option.some.inj (hx.symm.trans hy)
    exact hend
  cases h with
  | submitted _ _ hx hstore | refused _ _ hx hstore =>
    exact unwritten hx hstore fun hkey => absurd hkey hund
  | read hq hphase _ _ _ hx hstore | rejected hq hphase _ _ _ hx hstore
  | found hq hphase hx hstore =>
    have hne := other hq (by rw [hphase]; rfl)
    exact unwritten hx hstore fun hkey => absurd hkey hne
  | @committed x reservation ids stamps response _ hq hphase hfresh hcom hx =>
    have hne := other hq (by rw [hphase]; rfl)
    refine ⟨fun y hy hkey => ?_, fun r hr => ?_⟩
    · obtain rfl := Option.some.inj (hx.symm.trans hy)
      exact absurd hkey hne
    · obtain ⟨expired, expiresAt, rfl, -⟩ := hs.reservation hq hphase
      obtain ⟨hmem, rfl⟩ := Table.get_eq_some.1 hr
      rcases ((created_of_commit hcom).records r).1 hmem with ⟨hmem, -⟩ | rfl
      · exact Table.get_of_mem hmem
      · exact absurd rfl hne
  | aborted _ _ hx hstore | crashed _ hx hstore =>
    exact unwritten hx hstore fun _ => by simp [RequestPhase.outcome?]
  | released _ _ _ ho hx hstore =>
    exact unwritten hx hstore fun _ => by simp [ho]

theorem onTrack_request (hs : Recorded s) (hm : Matched s) {b : RequestAction} {x : Request}
    (h : RequestChange env s q b s') (hund : Undisturbed env key q (.request q b))
    (hold : ∀ b ∈ old, ∃ b' ∈ s.store.batches, b'.id = b.id) (hq : s.requests q = some x)
    (hkey : x.key = key) (hbody : Storable x.body x.key) (htrack : OnTrack old key s x.phase) :
    ∃ y, s'.requests q = some y ∧ y.key = key ∧ Storable y.body y.key ∧
      OnTrack old key s' y.phase := by
  cases h with
  | submitted hnone | refused hnone => cases hnone.symm.trans hq
  | @read y t₁ t₂ _ hq' hphase h₁ _ _ hx hstore =>
    obtain rfl := Option.some.inj (hq'.symm.trans hq)
    refine ⟨_, hx, hkey, hbody, ?_⟩
    rw [hphase] at htrack
    cases htrack with
    | locked hexp =>
      obtain ⟨expiresAt, hadd⟩ := Option.ne_none_iff_exists'.1 (hund rfl)
      subst hkey
      simp only [reserveOrGet_expired (fun r hr => (hexp r hr).trans h₁) hadd, afterRead]
      exact .reserved fun r hr => by rw [← hstore]; exact hr
    | accepted ho => cases ho
  | @committed y reservation ids stamps response _ hq' hphase hfresh hcom hx =>
    obtain rfl := Option.some.inj (hq'.symm.trans hq)
    refine ⟨_, hx, hkey, hbody, .accepted rfl fun b hb heq => ?_⟩
    obtain ⟨st₁, _, _, _, rfl, -⟩ := commitBulk_ok hcom
    obtain ⟨b', hb', hid⟩ := hold b hb
    have hids : b'.id = ids 0 := hid.trans heq
    exact bulkIds_fresh hfresh (Nat.zero_le _) (hids ▸ mem_uuids_of_batch hb')
  | @rejected y reservation ids stamps e _ hq' hphase hfresh hcom _ hx hstore =>
    obtain rfl := Option.some.inj (hq'.symm.trans hq)
    rw [hphase] at htrack
    cases htrack with
    | reserved hfree =>
      obtain ⟨st, hok⟩ := commit_total hfresh hs hm hbody (hkey ▸ hfree) (env.requestHash y.body)
      cases hcom.symm.trans hok
    | accepted ho => cases ho
  | found hq' hphase =>
    obtain rfl := Option.some.inj (hq'.symm.trans hq)
    rw [hphase] at htrack
    cases htrack with
    | accepted ho => cases ho
  | aborted | crashed => exact absurd rfl hund
  | @released y o phase _ _ _ hq' ho ho' hx hstore =>
    obtain rfl := Option.some.inj (hq'.symm.trans hq)
    refine ⟨_, hx, hkey, hbody, ?_⟩
    generalize y.phase = before at ho htrack
    cases htrack with
    | locked | reserved => cases ho
    | accepted hacc hnew => exact .accepted (ho'.trans (ho.symm.trans hacc)) hnew

theorem lone_step (hs : Recorded s) (hm : Matched s) (hl : Lone old key q s)
    (hund : Undisturbed env key q a) (h : ApiChange env s a s') : Lone old key q s' := by
  obtain ⟨x, hq, hkey, hbody, htrack⟩ := hl.request
  have hold : ∀ b ∈ old, ∃ b' ∈ s'.store.batches, b'.id = b.id := by
    intro b hb
    obtain ⟨b₁, hb₁, h₁⟩ := hl.kept b hb
    obtain ⟨b₂, hb₂, h₂⟩ := batches_stay hs h hb₁
    exact ⟨b₂, hb₂, h₂.trans h₁⟩
  cases h with
  | quiet hnow hreq _ _ hk =>
    exact ⟨hreq ▸ hl.others, hold, x, hreq ▸ hq, hkey, hbody,
      onTrack_mono htrack hnow fun r hr => hk ▸ hr⟩
  | select ht => exact ⟨hl.others, hold, x, hq, hkey, hbody, onTrack_mono htrack ht fun _ hr => hr⟩
  | stop => exact ⟨hl.others, hold, x, hq, hkey, hbody, onTrack_mono htrack le_rfl fun _ hr => hr⟩
  | delete _ ht =>
    refine ⟨hl.others, hold, x, hq, hkey, hbody, onTrack_mono htrack ht fun r hr => ?_⟩
    obtain ⟨hmem, rfl⟩ := Table.get_eq_some.1 hr
    exact Table.get_of_mem (mem_deleteExpired.1 hmem).1
  | @request p b _ hnow hchange _ hothers =>
    by_cases hp : p = q
    · subst hp
      refine ⟨fun p' y hne hy => ?_, hold,
        onTrack_request hs hm hchange hund hl.kept hq hkey hbody htrack⟩
      exact hl.others p' y hne (hothers p' hne ▸ hy)
    · obtain ⟨hover, hsub⟩ := other_request hs hchange hund (hl.others p · hp)
      refine ⟨fun p' y hne hy => ?_, hold, x, (hothers q fun h => hp h.symm) ▸ hq, hkey,
        hbody, onTrack_mono htrack hnow hsub⟩
      by_cases hpp : p' = p
      · subst hpp
        exact hover y hy
      · exact hl.others p' y hne (hothers p' hpp ▸ hy)

end lone

/-! ## What the columns refuse -/

theorem storable_of_commit {st st' : Store} {request : BulkNotificationRequest}
    {requestHash : String} {reservation : Reservation} {ids : Nat → Uuid} {stamps : Nat → Time}
    {response : BulkNotificationResponse}
    (h : commitBulk st request key requestHash reservation ids stamps = .ok (st', response)) :
    Storable request key := by
  simp only [commitBulk] at h
  split at h
  · cases h
  · split at h
    · cases h
    · next hbatch =>
      split at h
      · split at h
        · cases h
        · split at h
          · cases h
          · next hrecipients => exact ⟨by simpa using hbatch, by simpa using hrecipients⟩
      · cases h

theorem afterRead_ne_accepted {e : Except NotReserved Reservation}
    {response : BulkNotificationResponse} :
    (afterRead e).outcome? ≠ some (.accepted response) := by
  rcases e with (_ | _ | _) | _ <;> simp [afterRead, RequestPhase.outcome?]

theorem afterFind_ne_accepted {requestHash : String} {existing : Option IdempotencyKey}
    {response : BulkNotificationResponse} :
    (afterFind requestHash existing).outcome? ≠ some (.accepted response) := by
  unfold afterFind
  split
  · simp [RequestPhase.outcome?]
  · split
    · simp [RequestPhase.outcome?]
    · split <;> simp [RequestPhase.outcome?]

/-- Only what the columns hold is accepted. -/
theorem storable_of_request {b : RequestAction} {x : Request} {response : BulkNotificationResponse}
    (h : RequestChange env s q b s') (hx : s'.requests q = some x)
    (ho : x.phase.outcome? = some (.accepted response))
    (hs : ∀ y, s.requests q = some y → y.phase.outcome? = some (.accepted response) →
      Storable y.body y.key) : Storable x.body x.key := by
  cases h with
  | submitted _ _ hq | refused _ _ hq | aborted _ _ hq | crashed _ hq =>
    obtain rfl := Option.some.inj (hq.symm.trans hx)
    cases ho
  | read _ _ _ _ _ hq =>
    obtain rfl := Option.some.inj (hq.symm.trans hx)
    exact (afterRead_ne_accepted ho).elim
  | committed _ _ _ hcom hq =>
    obtain rfl := Option.some.inj (hq.symm.trans hx)
    exact storable_of_commit hcom
  | rejected _ _ _ _ _ hq =>
    obtain rfl := Option.some.inj (hq.symm.trans hx)
    simp only at ho
    split at ho <;> cases ho
  | found _ _ hq =>
    obtain rfl := Option.some.inj (hq.symm.trans hx)
    exact (afterFind_ne_accepted ho).elim
  | @released y _ _ _ _ _ hq ho₁ ho₂ hq' =>
    obtain rfl := Option.some.inj (hq'.symm.trans hx)
    exact hs y hq (ho₁.trans (ho₂.symm.trans ho))

theorem storable_of_accepted {ok : State → Action → Prop} (h : (machine env).Reach ok s) :
    ∀ q x response, s.requests q = some x → x.phase.outcome? = some (.accepted response) →
      Storable x.body x.key := by
  refine Machine.Reach.induct (I := fun s => ∀ q x response, s.requests q = some x →
    x.phase.outcome? = some (.accepted response) → Storable x.body x.key) ?_
    (fun t a t' _ ht _ hstep q x response hx ho => ?_) h
  · rintro _ ⟨now, rfl⟩ q x response hq
    cases hq
  · cases apiChange_of_step hstep with
    | quiet _ hreq => exact ht q x response (hreq ▸ hx) ho
    | select | delete | stop => exact ht q x response hx ho
    | @request p b _ _ hchange _ hothers =>
      by_cases hp : q = p
      · subst hp
        exact storable_of_request hchange hx ho fun y => ht q y response
      · exact ht q x response (hothers q hp ▸ hx) ho

/-! ## The theorem -/

section create

variable {body : BulkNotificationRequest} {t₁ t₂ t₃ : Time} {ids : Nat → Uuid}
  {stamps : Nat → Time}

/-- The steps of a `create_bulk` that is accepted, with its commit at `t₃`. -/
def createBulk (q : Nat) (body : BulkNotificationRequest) (key : String) (t₁ t₂ t₃ : Time)
    (ids : Nat → Uuid) (stamps : Nat → Time) : List Action :=
  [.request q (.submit body key), .request q (.read t₁ t₂), .tick t₃,
    .request q (.commit ids stamps), .request q .getLock, .request q .deleteLock]

/-- Without a live record a request that finds the lock free runs to its end. -/
theorem createBulk_completes (hs : Recorded s) (hm : Matched s)
    (hexp : ∀ r, s.store.idempotencyKeys.get key = some r → r.expiresAt ≤ s.now)
    (hlock : s.redis key = none) (hq : s.requests q = none) (hbody : Storable body key)
    (h₁ : s.now ≤ t₁) (h₂ : t₁ ≤ t₂) (h₃ : t₂ ≤ t₃)
    (hadd : addSeconds t₂ env.idempotencyTtlSeconds ≠ none)
    (hfresh : s.store.Fresh (bulkIds ids (distinctRecipients body.recipientIds).length))
    (hstamps : ∀ row ∈ newHistory body ids stamps, row.createdAt ≤ t₃) :
    ∃ u, (machine env).exec s (createBulk q body key t₁ t₂ t₃ ids stamps) = some u ∧
      u.requests q = some ⟨body, key, .done (.accepted (acceptedResponse (ids 0) body))⟩ := by
  obtain ⟨expiresAt, hadd⟩ := Option.ne_none_iff_exists'.1 hadd
  have hread : reserveOrGet env.toSettings s.store key (env.requestHash body) t₁ t₂ =
      .ok (.newRecord (s.store.idempotencyKeys.get key) expiresAt) :=
    reserveOrGet_expired (fun r hr => (hexp r hr).trans h₁) hadd
  obtain ⟨st, hcom⟩ : ∃ st, commitBulk s.store body key (env.requestHash body)
      (.newRecord (s.store.idempotencyKeys.get key) expiresAt) ids stamps =
        .ok (st, acceptedResponse (ids 0) body) :=
    commit_total (x := ⟨body, key, .locked⟩) hfresh hs hm hbody (fun _ hr => hr) _
  simp [createBulk, Machine.exec, machine, step, requestStep, activeRequestStep, hq, hlock,
    State.setRequest, h₁, h₂, h₃, hread, afterRead, hfresh, eq_true hstamps, hcom,
    afterCommit]

end create

/-- **A key without a live record and without a request in flight is accepted again**: a request
for any body that the columns hold can run to its end, and whatever else runs meanwhile, what it
answers is the acceptance of a new batch. -/
def Reusable (env : Deployment) (s : State) : Prop :=
  ∀ key q body, Storable body key →
    (∀ r, s.store.idempotencyKeys.get key = some r → r.expiresAt ≤ s.now) →
    s.redis key = none → s.requests q = none →
    (∀ p x, s.requests p = some x → x.key = key → x.phase.outcome? ≠ none) →
    (∀ t₁ t₂ t₃ ids stamps, s.now ≤ t₁ → t₁ ≤ t₂ → t₂ ≤ t₃ →
      addSeconds t₂ env.idempotencyTtlSeconds ≠ none →
      s.store.Fresh (bulkIds ids (distinctRecipients body.recipientIds).length) →
      (∀ row ∈ newHistory body ids stamps, row.createdAt ≤ t₃) →
      ∃ u, (machine env).exec s (createBulk q body key t₁ t₂ t₃ ids stamps) = some u ∧
        u.requests q = some ⟨body, key, .done (.accepted (acceptedResponse (ids 0) body))⟩) ∧
    ∀ s₁ as u x o, step env s (.request q (.submit body key)) = some s₁ →
      (machine env).Run (fun t a => DeletesSelected t a ∧ Undisturbed env key q a) s₁ as u →
      u.requests q = some x → x.phase.outcome? = some o →
      ∃ response, o = .accepted response ∧ ∀ b ∈ s.store.batches, b.id ≠ response.batchId

theorem lone_submit {body : BulkNotificationRequest} (hbody : Storable body key)
    (hexp : ∀ r, s.store.idempotencyKeys.get key = some r → r.expiresAt ≤ s.now)
    (hlock : s.redis key = none)
    (hover : ∀ p x, s.requests p = some x → x.key = key → x.phase.outcome? ≠ none)
    (hstep : step env s (.request q (.submit body key)) = some s') :
    Lone s.store.batches.rows key q s' := by
  have hnow : s.now ≤ s'.now := (change_of_step hstep).now_le
  have hothers := (requestStep_frame hstep).2.2
  have hchange : RequestChange env s q (.submit body key) s' := requestStep_cases hstep
  cases hchange with
  | refused _ hheld => exact absurd hlock hheld
  | submitted _ _ hq hstore =>
    refine ⟨fun p x hne hx => hover p x (hothers p hne ▸ hx), fun b hb => ⟨b, hstore ▸ hb, rfl⟩,
      _, hq, rfl, hbody, .locked fun r hr => ?_⟩
    rw [hstore] at hr
    exact (hexp r hr).trans hnow
  | released hcases => simp at hcases

theorem lone_run {old : List NotificationBatch} {as : List Action}
    (h : (machine env).Reach DeletesSelected s) (hl : Lone old key q s)
    (hrun : (machine env).Run (fun t a => DeletesSelected t a ∧ Undisturbed env key q a) s as u) :
    Lone old key q u := by
  induction hrun with
  | nil => exact hl
  | snoc hr hok hstep ih =>
    have ht := h.run (hr.mono fun _ _ hok => hok.1)
    exact lone_step (recorded_reach ht) (matched_reach ht) ih hok.2 (apiChange_of_step hstep)

/-- **An idempotency key is reusable after expiry** in every run whose cleanups delete only what
they have selected, and no request is accepted whose body or key the columns do not hold. -/
theorem key_reusable (h : (machine env).Reach DeletesSelected s) :
    Matched s ∧ Reusable env s ∧ ∀ q x response, s.requests q = some x →
      x.phase.outcome? = some (.accepted response) → Storable x.body x.key := by
  have hs := recorded_reach h
  have hm := matched_reach h
  refine ⟨hm, fun key q body hbody hexp hlock hq hover => ⟨?_, ?_⟩, storable_of_accepted h⟩
  · intro t₁ t₂ t₃ ids stamps h₁ h₂ h₃ hadd hfresh hstamps
    exact createBulk_completes hs hm hexp hlock hq hbody h₁ h₂ h₃ hadd hfresh hstamps
  · intro s₁ as u x o hsubmit hrun hx ho
    have h₁ : (machine env).Reach DeletesSelected s₁ :=
      Machine.Reach.step (a := .request q (.submit body key)) h trivial hsubmit
    obtain ⟨y, hy, -, -, htrack⟩ :=
      (lone_run h₁ (lone_submit hbody hexp hlock hover hsubmit) hrun).request
    obtain rfl := Option.some.inj (hx.symm.trans hy)
    generalize x.phase = phase at ho htrack
    cases htrack with
    | locked | reserved => cases ho
    | accepted hacc hnew => exact ⟨_, Option.some.inj (ho.symm.trans hacc), hnew⟩

/-! ## Samples -/

/-- The request whose step an action is. -/
def Action.request? : Action → Option Nat
  | .request q _ => some q
  | _ => none

theorem requests_of_run {ok : State → Action → Prop} {as : List Action} {p : Nat}
    (hrun : (machine env).Run ok s as u) (has : ∀ a ∈ as, a.request? ≠ some p) :
    u.requests p = s.requests p := by
  induction hrun with
  | nil => rfl
  | @snoc as t u a hr _ hstep ih =>
    rw [← ih fun b hb => has b (by simp [hb])]
    have hlast : a.request? ≠ some p := has a (by simp)
    cases apiChange_of_step hstep with
    | quiet _ hreq => rw [hreq]
    | select | delete | stop => rfl
    | @request q b _ _ _ _ hothers =>
      refine hothers p fun hp => hlast ?_
      rw [hp]
      rfl

/-- A sample run in which only request 0 is made, and has an answer. -/
theorem Sample.only_first {ok : State → Action → Prop} {as : List Action}
    (hrun : (machine Sample.env).Run ok (.initial 0) as s)
    (has : as.all (fun a => a.request?.all (· = 0)) = true)
    (hfirst : (s.requests 0).all (·.phase.outcome?.isSome) = true) :
    s.requests 1 = none ∧ ∀ p x, s.requests p = some x → x.phase.outcome? ≠ none := by
  have hnone {p : Nat} (hp : p ≠ 0) : s.requests p = none := by
    refine requests_of_run hrun fun a ha heq => hp ?_
    simpa [heq] using List.all_eq_true.1 has a ha
  refine ⟨hnone (by decide), fun p x hx => ?_⟩
  by_cases hp : p = 0
  · subst hp
    simp only [hx, Option.all_some, Option.isSome_iff_ne_none] at hfirst
    exact hfirst
  · cases (hnone hp).symm.trans hx

theorem Sample.storable : Storable Sample.request "key" := ⟨by decide, by decide⟩

/-- The sample request ends and its record expires, after a day. -/
def Sample.expiry : List Action :=
  Sample.creation ++ [.request 0 .getLock, .request 0 .deleteLock, .tick (Sample.sec 86400)]

/-- The expired key is accepted again. -/
theorem key_reusable_expired : ∃ (s u : State) (r : IdempotencyKey), Matched s ∧
    s.store.idempotencyKeys.get "key" = some r ∧ r.expiresAt ≤ s.now ∧
      (machine Sample.env).exec s (createBulk 1 Sample.request "key" (Sample.sec 86400)
        (Sample.sec 86400) (Sample.sec 86400) (· + 10) fun _ => Sample.sec 86400) = some u ∧
      u.requests 1 = some ⟨Sample.request, "key",
        .done (.accepted (acceptedResponse 10 Sample.request))⟩ := by
  obtain ⟨s, hrun, hs⟩ := Machine.Run.exists_of_exec (machine Sample.env) DeletesSelected
    (.initial 0) Sample.expiry
    (fun s => s.now = Sample.sec 86400 &&
      (s.store.idempotencyKeys.get "key").any (fun r => r.expiresAt ≤ s.now) &&
      (s.redis "key").isNone && (s.requests 0).all (·.phase.outcome?.isSome) &&
      s.store.Fresh (bulkIds (· + 10) 1))
    (by simp [Sample.expiry, Sample.creation, DeletesSelected]) (by decide)
  simp only [Bool.and_eq_true, decide_eq_true_eq, Option.any_eq_true,
    Option.isNone_iff_eq_none] at hs
  obtain ⟨⟨⟨⟨hnow, r, hr, hexp⟩, hlock⟩, hfirst⟩, hfresh⟩ := hs
  obtain ⟨hq, hover⟩ := Sample.only_first hrun (by decide) hfirst
  obtain ⟨hm, hreuse, -⟩ := key_reusable (.run (.init ⟨0, rfl⟩) hrun)
  have hexp' : ∀ k, s.store.idempotencyKeys.get "key" = some k → k.expiresAt ≤ s.now := by
    intro k hk
    obtain rfl := Option.some.inj (hr.symm.trans hk)
    exact hexp
  obtain ⟨u, hu, hdone⟩ := (hreuse "key" 1 Sample.request Sample.storable hexp' hlock hq
    fun p x hx _ => hover p x hx).1 (Sample.sec 86400) (Sample.sec 86400) (Sample.sec 86400)
    (· + 10) (fun _ => Sample.sec 86400) hnow.le le_rfl le_rfl (by decide) hfresh (by decide)
  exact ⟨s, u, r, hm, hr, hexp, hu, hdone⟩

/-- The record of the sample request expires between the two readings of a cleanup. -/
def Sample.lateExpiry : List Action :=
  Sample.creation ++ [.request 0 .getLock, .request 0 .deleteLock,
    .cleaner 0 (.select (Sample.sec 86400 - 1)), .cleaner 0 (.delete (Sample.sec 86400))]

/-- **A key is lost**: the cleanup deletes the record and leaves the key with its batch, so that
every later request is told that one is in progress. -/
theorem key_not_reusable : ¬ ∀ (env : Deployment) (s : State),
    (machine env).Reach Machine.Always s → Reusable env s := by
  intro h
  let again : List Action := [.request 1 (.read (Sample.sec 86400) (Sample.sec 86400)),
    .request 1 (.commit (· + 10) fun _ => Sample.sec 86400), .request 1 .find]
  obtain ⟨s, hrun, hs⟩ := Machine.Run.exists_of_exec_always (machine Sample.env) (.initial 0)
    Sample.lateExpiry
    (fun s => (s.store.idempotencyKeys.get "key").isNone && (s.redis "key").isNone &&
      (s.requests 0).all (·.phase.outcome?.isSome) &&
      ((machine Sample.env).exec s [.request 1 (.submit Sample.request "key")]).any fun s₁ =>
        ((machine Sample.env).exec s₁ again).any fun u =>
          (u.requests 1).any (·.phase.outcome? = some .inProgress)) (by decide)
  simp only [Bool.and_eq_true, Option.isNone_iff_eq_none] at hs
  obtain ⟨⟨⟨hnone, hlock⟩, hfirst⟩, hagain⟩ := hs
  obtain ⟨hq, hover⟩ := Sample.only_first hrun (by decide) hfirst
  obtain ⟨s₁, hsubmit, hs₁⟩ := Machine.step_of_exec hagain
  obtain ⟨u, hrun', hu⟩ := Machine.Run.exists_of_exec (machine Sample.env)
    (fun t a => DeletesSelected t a ∧ Undisturbed Sample.env "key" 1 a) s₁ again _
    (fun t => by simp [again, DeletesSelected, Undisturbed]; decide) hs₁
  obtain ⟨x, hx, ho⟩ := (Option.any_eq_true _ _).1 hu
  obtain ⟨-, hall⟩ :=
    h Sample.env s (.run (.init ⟨0, rfl⟩) hrun) "key" 1 Sample.request Sample.storable
    (fun r hr => by cases hnone.symm.trans hr) hlock hq fun p x hx _ => hover p x hx
  obtain ⟨response, heq, -⟩ := hall s₁ again u x .inProgress hsubmit hrun' hx (by simpa using ho)
  cases heq

end NotificationSystem
