import NotificationSystem.Records

/-!
# What an accepted request leaves

* `Materialised` — one notification, history row and created event for each distinct recipient,
  their batch and the record of the key, and nothing else.
* `bulk_materialised` — an accepted request leaves that, on every store.
* `commit_materialised` — in a run, the record it replaces is the expired one that it has read.
-/

namespace NotificationSystem

open Lib

variable {env : Deployment} {s s' : State} {st st' : Store} {request : BulkNotificationRequest}
  {key requestHash : String} {expired : Option IdempotencyKey} {expiresAt : Time}
  {ids : Nat → Uuid} {stamps : Nat → Time} {response : BulkNotificationResponse}

/-- A queued notification of the request, which nobody has touched. -/
structure Notification.QueuedIn (n : Notification) (batchId : Uuid)
    (request : BulkNotificationRequest) : Prop where
  batchId : n.batchId = batchId
  channel : n.channel = request.channel
  type : n.type = request.type
  message : n.message = request.message
  status : n.status = .queued
  attempts : n.attempts = 0
  unlocked : n.processingLockUntil = none
  unsent : n.providerMessageId = none ∧ n.lastError = none

/-- The pending created event of the notification, due at once. -/
structure OutboxEvent.Announces (e : OutboxEvent) (n : Notification) : Prop where
  aggregate : e.aggregateType = "notification" ∧ e.aggregateId = n.id
  eventType : e.eventType = .created
  pending : e.status = .pending ∧ e.attempts = 0 ∧ e.lastError = none
  unclaimed : e.lockedAt = none ∧ e.publishedAt = none
  availableAt : e.availableAt = none
  notification : e.payload.notificationId = n.id
  batch : e.payload.batchId = n.batchId
  recipient : e.payload.subscriberId = n.subscriberId
  route : e.payload.channel = n.channel ∧ e.payload.type = n.type ∧
    e.payload.routingKey = routingKeyForNotificationType n.type
  first : e.payload.attempt = 1 ∧ e.payload.retryDelaySeconds = none ∧
    e.payload.errorMessage = none ∧ e.payload.deferredReason = none

/-- The first history row of the notification. -/
structure NotificationStatusHistory.Opens (h : NotificationStatusHistory) (n : Notification) :
    Prop where
  notification : h.notificationId = n.id
  status : h.status = .queued
  error : h.errorMessage = none

/-- The store `st'` is `st` with the rows of an accepted request, where `expired` is the record of
the key that the request has replaced. -/
structure Materialised (st : Store) (request : BulkNotificationRequest) (key requestHash : String)
    (expired : Option IdempotencyKey) (expiresAt : Time) (st' : Store)
    (response : BulkNotificationResponse) : Prop where
  answer : response.status = "accepted" ∧
    response.notificationsCreated = request.recipientIds.toFinset.card
  fresh : ∀ b ∈ st.batches, b.id ≠ response.batchId
  batches : st'.batches.rows = st.batches.rows.map (·.releasedBy expired.toList) ++
    [⟨response.batchId, request.channel, request.type, request.message, some key,
      some requestHash⟩]
  created : ∃ ns hs es, st'.notifications.rows = st.notifications.rows ++ ns ∧
    st'.history = st.history ++ hs ∧ st'.outbox.rows = st.outbox.rows ++ es ∧
    (∀ n ∈ ns, n.QueuedIn response.batchId request) ∧
    (ns.map (·.subscriberId)).Nodup ∧
    (∀ r, r ∈ ns.map (·.subscriberId) ↔ r ∈ request.recipientIds) ∧
    List.Forall₂ NotificationStatusHistory.Opens hs ns ∧
    List.Forall₂ OutboxEvent.Announces es ns
  unique : uniquePerBatchSubscriber st'.notifications
  records : ∀ r, r ∈ st'.idempotencyKeys ↔ (r ∈ st.idempotencyKeys ∧ r.key ≠ key) ∨
    r = ⟨key, requestHash, some response.batchId, some response, expiresAt⟩

/-! ## The new rows -/

theorem newNotifications_subscribers : (newNotifications request ids stamps).map (·.subscriberId) =
    distinctRecipients request.recipientIds := by
  apply List.ext_getElem
  · simp [newNotifications]
  · intro i h₁ h₂
    simp [newNotifications, newNotification]

theorem length_distinctRecipients (recipientIds : List Int) :
    (distinctRecipients recipientIds).length = recipientIds.toFinset.card := by
  have hcard := List.toFinset_card_of_nodup (nodup_eraseDups recipientIds)
  rw [distinctRecipients, ← hcard]
  congr 1
  ext r
  simp [List.mem_eraseDups]

theorem newNotification_queued {n : Notification} (h : n ∈ newNotifications request ids stamps) :
    n.QueuedIn (ids 0) request := by
  obtain ⟨i, r, -, rfl⟩ := mem_newNotifications h
  exact ⟨rfl, rfl, rfl, rfl, rfl, rfl, rfl, rfl, rfl⟩

theorem newEvents_announce : List.Forall₂ OutboxEvent.Announces (newEvents request ids stamps)
    (newNotifications request ids stamps) := by
  rw [List.forall₂_iff_get]
  refine ⟨by simp [newEvents, newNotifications], fun i h₁ h₂ => ?_⟩
  simp only [List.get_eq_getElem, newEvents, newNotifications, List.getElem_mapIdx]
  exact ⟨⟨rfl, rfl⟩, rfl, ⟨rfl, rfl, rfl⟩, ⟨rfl, rfl⟩, rfl, rfl, rfl, rfl, ⟨rfl, rfl, rfl⟩,
    rfl, rfl, rfl, rfl⟩

theorem newHistory_opens : List.Forall₂ NotificationStatusHistory.Opens
    (newHistory request ids stamps) (newNotifications request ids stamps) := by
  rw [List.forall₂_iff_get]
  refine ⟨by simp [newHistory, newNotifications], fun i h₁ h₂ => ?_⟩
  simp only [List.get_eq_getElem, newHistory, newNotifications, List.getElem_mapIdx]
  exact ⟨rfl, rfl, rfl⟩

/-! ## The theorem -/

theorem ok_of_toOption {ε α : Type*} {e : Except ε α} {x : α} (h : e.toOption = some x) :
    e = .ok x := by
  cases e with
  | error _ => cases h
  | ok _ => cases h; rfl

theorem materialised_of_commit (hkey : ∀ x, expired = some x → x.key = key)
    (h : commitBulk st request key requestHash (.newRecord expired expiresAt) ids stamps =
      .ok (st', response)) :
    Materialised st request key requestHash expired expiresAt st' response := by
  have hcreated := created_of_commit h
  obtain ⟨-, hhistory, houtbox⟩ := commitBulk_delivery h
  obtain ⟨hresponse, hrecords, hfree, hbatches, -, hper, hnotifications⟩ := hcreated
  have hid : response.batchId = ids 0 := by rw [hresponse]; rfl
  have hne (r : IdempotencyKey) (hr : r ∈ st.idempotencyKeys) :
      (∀ x, expired = some x → r.key ≠ x.key) ↔ r.key ≠ key := by
    constructor
    · exact hfree r hr
    · intro hne x hx
      rw [hkey x hx]
      exact hne
  refine ⟨?_, ?_, ?_, ?_, hper, ?_⟩
  · rw [hresponse, ← length_distinctRecipients]
    exact ⟨rfl, rfl⟩
  · intro b hb heq
    -- the stored batch would have the id of the new one
    have hnodup := st'.batches.nodup
    rw [hbatches, List.map_append, List.nodup_append] at hnodup
    refine hnodup.2.2 b.id (List.mem_map.2 ⟨_, List.mem_map.2 ⟨b, hb, rfl⟩, releasedBy_id⟩) b.id ?_
      rfl
    simp [newBatch, heq, hid]
  · rw [hbatches, hid]
    rfl
  · refine ⟨newNotifications request ids stamps, newHistory request ids stamps,
      newEvents request ids stamps, hnotifications, hhistory, Table.insertAll?_rows houtbox,
      ?_, ?_, ?_, newHistory_opens, newEvents_announce⟩
    · rw [hid]
      exact fun n hn => newNotification_queued hn
    · rw [newNotifications_subscribers]
      exact nodup_eraseDups _
    · rw [newNotifications_subscribers]
      exact fun r => List.mem_eraseDups
  · intro r
    rw [hrecords r, hid]
    exact or_congr_left (and_congr_right (hne r))

/-- **An accepted request materialises its distinct recipients**, whatever the store it has read
and the store it writes, when the key had no live record. -/
theorem bulk_materialised {st₀ : Store} {t₁ t₂ : Time} {reservation : Reservation}
    (hlive : ∀ x, st₀.idempotencyKeys.get key = some x → x.isExpired t₁ = true)
    (hread : reserveOrGet env.toSettings st₀ key (env.requestHash request) t₁ t₂ =
      .ok reservation)
    (hcommit : commitBulk st request key (env.requestHash request) reservation ids stamps =
      .ok (st', response)) :
    ∃ expiresAt, addSeconds t₂ env.idempotencyTtlSeconds = some expiresAt ∧
      Materialised st request key (env.requestHash request) (st₀.idempotencyKeys.get key)
        expiresAt st' response := by
  have hnew : newRecord env.toSettings (st₀.idempotencyKeys.get key) t₂ = .ok reservation := by
    unfold reserveOrGet at hread
    split at hread
    · next hnone => rw [hnone, hread]
    · next x hget =>
      rw [if_pos (hlive x hget)] at hread
      rw [hget, hread]
  unfold newRecord at hnew
  split at hnew
  · cases hnew
  · next expiresAt hadd =>
    cases hnew
    exact ⟨expiresAt, hadd, materialised_of_commit (fun x hx => Table.get_key hx) hcommit⟩

/-- The record of the sample's first request has expired when the second one reads it. -/
theorem bulk_materialised_repeated : ∃ (st st' : Store) (x : IdempotencyKey) (expiresAt : Time)
    (response : BulkNotificationResponse), st.idempotencyKeys.get "key" = some x ∧
      Materialised st Sample.repeated "key" (Sample.env.requestHash Sample.repeated) (some x)
        expiresAt st' response := by
  obtain ⟨s, -, hs⟩ := Machine.Run.exists_of_exec_always (machine Sample.env) (.initial 0)
    Sample.creation
    (fun s => (s.store.idempotencyKeys.get "key").any (·.isExpired (Sample.sec 86400)) &&
      (reserveOrGet Sample.env.toSettings s.store "key" (Sample.env.requestHash Sample.repeated)
        (Sample.sec 86400) (Sample.sec 86400)).toOption.any fun reservation =>
          (commitBulk s.store Sample.repeated "key" (Sample.env.requestHash Sample.repeated)
            reservation (· + 10) fun _ => Sample.sec 86400).toOption.isSome) (by decide)
  rw [Bool.and_eq_true, Option.any_eq_true, Option.any_eq_true] at hs
  obtain ⟨⟨x, hx, hexpired⟩, reservation, hread, hcommit⟩ := hs
  obtain ⟨⟨st', response⟩, hcommit⟩ := Option.isSome_iff_exists.1 hcommit
  have hlive : ∀ y, s.store.idempotencyKeys.get "key" = some y →
      y.isExpired (Sample.sec 86400) = true := by
    intro y hy
    cases hx.symm.trans hy
    exact hexpired
  obtain ⟨expiresAt, -, hmat⟩ := bulk_materialised hlive (ok_of_toOption hread)
    (ok_of_toOption hcommit)
  rw [hx] at hmat
  exact ⟨s.store, st', x, expiresAt, response, hx, hmat⟩

/-- In a run, an accepting commit replaces no record but the expired one that its request read. -/
theorem commit_materialised {ok : State → Action → Prop} (h : (machine env).Reach ok s) {q : Nat}
    {r r' : Request} (hq : s.requests q = some r)
    (hstep : step env s (.request q (.commit ids stamps)) = some s')
    (hq' : s'.requests q = some r') (hphase : r'.phase = .releasing (.accepted response)) :
    ∃ expired expiresAt, r.phase = .reserved (.newRecord expired expiresAt) ∧
      Materialised s.store r.body r.key (env.requestHash r.body) expired expiresAt s'.store
        response ∧
      ∀ y ∈ s.store.idempotencyKeys, y.key = r.key → expired = some y := by
  have hs := recorded_reach h
  cases requestStep_cases hstep with
  | rejected hx _ _ _ _ hnew =>
    cases hq'.symm.trans hnew
    simp only at hphase
    split at hphase <;> cases hphase
  | released ha => rcases ha with ha | ha <;> cases ha
  | @committed x reservation _ _ answer _ hx hreserved hfresh hcommit hnew =>
    cases hq.symm.trans hx
    cases hq'.symm.trans hnew
    cases hphase
    obtain ⟨expired, expiresAt, rfl, hkey⟩ := hs.reservation hq hreserved
    refine ⟨expired, expiresAt, hreserved, materialised_of_commit hkey hcommit, ?_⟩
    intro y hy hykey
    have hcreated := created_of_commit hcommit
    by_contra hne
    have hnot : ∀ z ∈ expired.toList, z.batchId ≠ y.batchId := by
      intro z hz heq
      rw [Option.mem_toList] at hz
      cases hz
      have hsnapshot : s.Snapshot z := .inr ⟨q, r, expiresAt, hq, hreserved⟩
      exact hne (by rw [(hs.snapshots z hsnapshot).2.2 y hy heq.symm])
    -- so the batch of `y` keeps the key, which the new batch cannot share
    obtain ⟨b, hb, hbacks⟩ := hs.records y hy
    have hkept : b.releasedBy expired.toList = b :=
      releasedBy_of_not_mem fun z hz heq => hnot z hz (heq.trans hbacks.batchId.symm)
    have hb' := (mem_created_batches hcreated).2 (.inl ⟨b, hb, hkept.symm⟩)
    have hnew' := (mem_created_batches hcreated).2 (.inr rfl)
    have heq := batch_unique hcreated.unique hb' hnew' (hbacks.key.trans (by rw [hykey])) rfl
    have hid : b.id = ids 0 := congrArg NotificationBatch.id heq
    exact bulkIds_fresh hfresh (Nat.zero_le _) (hid ▸ mem_uuids_of_batch hb)

end NotificationSystem
