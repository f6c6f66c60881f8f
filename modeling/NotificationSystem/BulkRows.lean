import NotificationSystem.Idempotency

/-!
# The rows of a bulk creation

What a commit of `create_bulk` adds: for each distinct recipient one notification, one
history row and one created event, under ids that no row had before.
-/

namespace NotificationSystem

open Lib

theorem map_mapIdx_index {α β γ : Type*} (f : Nat → α → β) (g : β → γ) (h : Nat → γ)
    (l : List α) (hg : ∀ i a, g (f i a) = h i) :
    (l.mapIdx f).map g = (List.range l.length).map h := by
  apply List.ext_getElem
  · simp
  · intro i h₁ h₂
    simp [hg]

theorem nodup_eraseDups {α : Type*} [DecidableEq α] : (l : List α) → l.eraseDups.Nodup
  | [] => List.nodup_nil
  | a :: l => by
    rw [List.eraseDups_cons, List.nodup_cons]
    exact ⟨by simp [List.mem_eraseDups], nodup_eraseDups _⟩
termination_by l => l.length
decreasing_by
  simp only [List.length_cons]
  exact Nat.lt_succ_of_le (List.length_filter_le _ _)

section rows

variable {st : Store} {request : BulkNotificationRequest} {ids : Nat → Uuid}
  {stamps : Nat → Time} {n : Notification} {e : OutboxEvent}

theorem mem_newNotifications (h : n ∈ newNotifications request ids stamps) :
    ∃ i r, i < (distinctRecipients request.recipientIds).length ∧
      n = newNotification request ids stamps i r := by
  obtain ⟨i, hi, rfl⟩ := List.mem_mapIdx.1 h
  exact ⟨i, _, hi, rfl⟩

theorem exists_createdEvent (h : n ∈ newNotifications request ids stamps) :
    ∃ i r, n = newNotification request ids stamps i r ∧
      createdEvent request ids stamps i r ∈ newEvents request ids stamps ∧
      ⟨ids (3 * i + 1), .queued, none, stamps (4 * i + 3)⟩ ∈ newHistory request ids stamps := by
  obtain ⟨i, hi, rfl⟩ := List.mem_mapIdx.1 h
  exact ⟨i, _, rfl, List.mem_mapIdx.2 ⟨i, hi, rfl⟩, List.mem_mapIdx.2 ⟨i, hi, rfl⟩⟩

theorem mem_newHistory {row : NotificationStatusHistory}
    (h : row ∈ newHistory request ids stamps) :
    ∃ i r, newNotification request ids stamps i r ∈ newNotifications request ids stamps ∧
      row = ⟨ids (3 * i + 1), .queued, none, stamps (4 * i + 3)⟩ := by
  obtain ⟨i, hi, rfl⟩ := List.mem_mapIdx.1 h
  exact ⟨i, _, List.mem_mapIdx.2 ⟨i, hi, rfl⟩, rfl⟩

theorem mem_newEvents (h : e ∈ newEvents request ids stamps) :
    ∃ i r, i < (distinctRecipients request.recipientIds).length ∧
      newNotification request ids stamps i r ∈ newNotifications request ids stamps ∧
      e = createdEvent request ids stamps i r := by
  obtain ⟨i, hi, rfl⟩ := List.mem_mapIdx.1 h
  exact ⟨i, _, hi, List.mem_mapIdx.2 ⟨i, hi, rfl⟩, rfl⟩

theorem newNotifications_ids : (newNotifications request ids stamps).map (·.id) =
    (List.range (distinctRecipients request.recipientIds).length).map fun i => ids (3 * i + 1) :=
  map_mapIdx_index (newNotification request ids stamps) _ _ _ fun _ _ => rfl

theorem newHistory_ids : (newHistory request ids stamps).map (·.notificationId) =
    (newNotifications request ids stamps).map (·.id) := by
  rw [newNotifications_ids]
  exact map_mapIdx_index (fun i _ => (⟨ids (3 * i + 1), .queued, none, stamps (4 * i + 3)⟩ :
    NotificationStatusHistory)) _ _ _ fun _ _ => rfl

theorem newEvents_ids : (newEvents request ids stamps).map (·.id) =
    (List.range (distinctRecipients request.recipientIds).length).map fun i => ids (3 * i + 3) :=
  map_mapIdx_index (createdEvent request ids stamps) _ _ _ fun _ _ => rfl

theorem newEvents_aggregateIds : (newEvents request ids stamps).map (·.aggregateId) =
    (newNotifications request ids stamps).map (·.id) := by
  rw [newNotifications_ids]
  exact map_mapIdx_index (createdEvent request ids stamps) _ _ _ fun _ _ => rfl

theorem nodup_newMembers : ((newNotifications request ids stamps).map fun n =>
      (n.batchId, n.subscriberId)).Nodup := by
  have heq : ((newNotifications request ids stamps).map fun n => (n.batchId, n.subscriberId)) =
      (distinctRecipients request.recipientIds).map fun r => (ids 0, r) := by
    apply List.ext_getElem
    · simp [newNotifications]
    · intro i h₁ h₂
      simp [newNotifications, newNotification]
  rw [heq]
  exact (nodup_eraseDups _).map fun r r' h => (Prod.mk.inj h).2

variable (hfresh : st.Fresh (bulkIds ids (distinctRecipients request.recipientIds).length))

include hfresh

theorem bulkIds_inj {i j : Nat} (hi : i ≤ 3 * (distinctRecipients request.recipientIds).length)
    (hj : j ≤ 3 * (distinctRecipients request.recipientIds).length) (h : ids i = ids j) :
    i = j :=
  List.inj_on_of_nodup_map hfresh.1 (List.mem_range.2 (by omega)) (List.mem_range.2 (by omega)) h

theorem bulkIds_fresh {i : Nat} (hi : i ≤ 3 * (distinctRecipients request.recipientIds).length) :
    ids i ∉ st.uuids :=
  hfresh.2 _ (List.mem_map.2 ⟨i, List.mem_range.2 (by omega), rfl⟩)

theorem newNotifications_nodup (stamps : Nat → Time) :
    ((newNotifications request ids stamps).map (·.id)).Nodup := by
  rw [newNotifications_ids]
  refine List.Nodup.map_on (fun i hi j hj h => ?_) List.nodup_range
  have := bulkIds_inj hfresh (by have := List.mem_range.1 hi; omega)
    (by have := List.mem_range.1 hj; omega) h
  omega

theorem newEvents_nodup (stamps : Nat → Time) :
    ((newEvents request ids stamps).map (·.id)).Nodup := by
  rw [newEvents_ids]
  refine List.Nodup.map_on (fun i hi j hj h => ?_) List.nodup_range
  have := bulkIds_inj hfresh (by have := List.mem_range.1 hi; omega)
    (by have := List.mem_range.1 hj; omega) h
  omega

theorem newNotification_fresh (h : n ∈ newNotifications request ids stamps) :
    n.id ∉ st.uuids := by
  obtain ⟨i, r, hi, rfl⟩ := mem_newNotifications h
  exact bulkIds_fresh hfresh (by omega)

theorem newEvent_fresh (h : e ∈ newEvents request ids stamps) : e.id ∉ st.uuids := by
  obtain ⟨i, r, hi, -, rfl⟩ := mem_newEvents h
  exact bulkIds_fresh hfresh (by omega)

end rows

/-! ## Fresh uuids -/

section fresh

variable {st : Store} {n : Notification} {e : OutboxEvent} {b : NotificationBatch}

theorem mem_uuids_of_notification (h : n ∈ st.notifications) : n.id ∈ st.uuids := by
  have : n.id ∈ st.notifications.rows.map (·.id) := List.mem_map.2 ⟨n, h, rfl⟩
  simp only [Store.uuids, List.mem_append]
  tauto

theorem mem_uuids_of_batchId (h : n ∈ st.notifications) : n.batchId ∈ st.uuids := by
  have : n.batchId ∈ st.notifications.rows.map (·.batchId) := List.mem_map.2 ⟨n, h, rfl⟩
  simp only [Store.uuids, List.mem_append]
  tauto

theorem mem_uuids_of_event (h : e ∈ st.outbox) : e.id ∈ st.uuids := by
  have : e.id ∈ st.outbox.rows.map (·.id) := List.mem_map.2 ⟨e, h, rfl⟩
  simp only [Store.uuids, List.mem_append]
  tauto

theorem mem_uuids_of_batch (h : b ∈ st.batches) : b.id ∈ st.uuids := by
  have : b.id ∈ st.batches.rows.map (·.id) := List.mem_map.2 ⟨b, h, rfl⟩
  simp only [Store.uuids, List.mem_append]
  tauto

end fresh

/-! ## What a commit writes -/

section commit

variable {st st' : Store} {request : BulkNotificationRequest} {key requestHash : String}
  {reservation : Reservation} {ids : Nat → Uuid} {stamps : Nat → Time}
  {response : BulkNotificationResponse}

/-- The batch of a request. -/
def newBatch (request : BulkNotificationRequest) (key requestHash : String)
    (ids : Nat → Uuid) : NotificationBatch :=
  ⟨ids 0, request.channel, request.type, request.message, some key, some requestHash⟩

theorem commitBulk_ok
    (h : commitBulk st request key requestHash reservation ids stamps = .ok (st', response)) :
    ∃ st₁ batches notifications outbox,
      response = acceptedResponse (ids 0) request ∧
      writeRecord st reservation key requestHash response = .ok st₁ ∧
      st₁.batches.insert? (newBatch request key requestHash ids) = some batches ∧
      st₁.notifications.insertAll? (newNotifications request ids stamps) = some notifications ∧
      st₁.outbox.insertAll? (newEvents request ids stamps) = some outbox ∧
      uniqueBatchKeys batches ∧ uniquePerBatchSubscriber notifications ∧
      st' = { st₁ with
        batches
        notifications
        outbox
        history := st₁.history ++ newHistory request ids stamps } := by
  simp only [commitBulk] at h
  split at h
  · cases h
  · next st₁ hwrite =>
    split at h
    · cases h
    · split at h
      · next batches notifications outbox hb hn ho =>
        split at h
        · cases h
        · next hu =>
          split at h
          · cases h
          · obtain ⟨hkeys, hper⟩ := not_not.1 hu
            cases h
            exact ⟨st₁, batches, notifications, outbox, rfl, hwrite, hb, hn, ho, hkeys, hper, rfl⟩
      · cases h

theorem writeRecord_frame {st₁ : Store}
    (h : writeRecord st reservation key requestHash response = .ok st₁) :
    st₁.notifications = st.notifications ∧ st₁.history = st.history ∧
      st₁.outbox = st.outbox := by
  unfold writeRecord at h
  cases reservation with
  | newRecord expired expiresAt =>
    simp only at h
    split at h
    · cases h
    · cases h
      cases expired <;> simp [removeExpired]
  | existing record =>
    simp only at h
    split at h
    · cases h
    · cases h
      exact ⟨rfl, rfl, rfl⟩

theorem commitBulk_delivery
    (h : commitBulk st request key requestHash reservation ids stamps = .ok (st', response)) :
    st.notifications.insertAll? (newNotifications request ids stamps) = some st'.notifications ∧
      st'.history = st.history ++ newHistory request ids stamps ∧
      st.outbox.insertAll? (newEvents request ids stamps) = some st'.outbox := by
  obtain ⟨st₁, batches, notifications, outbox, -, hwrite, -, hn, ho, -, -, rfl⟩ := commitBulk_ok h
  obtain ⟨h₁, h₂, h₃⟩ := writeRecord_frame hwrite
  exact ⟨h₁ ▸ hn, by rw [h₂], h₃ ▸ ho⟩

theorem commitBulk_get
    (h : commitBulk st request key requestHash reservation ids stamps = .ok (st', response))
    {n : Notification} (hn : n ∈ newNotifications request ids stamps) :
    st'.notifications.get n.id = some n :=
  Table.get_of_mem ((Table.mem_insertAll? (commitBulk_delivery h).1).2 (.inr hn))

/-- The events are the old ones and the created events of the new notifications. -/
theorem commitBulk_event
    (h : commitBulk st request key requestHash reservation ids stamps = .ok (st', response))
    {e : OutboxEvent} (he : e ∈ st'.outbox) : e ∈ st.outbox ∨
      ∃ i r, newNotification request ids stamps i r ∈ newNotifications request ids stamps ∧
        e = createdEvent request ids stamps i r := by
  refine ((Table.mem_insertAll? (commitBulk_delivery h).2.2).1 he).imp_right fun hnew => ?_
  obtain ⟨i, r, -, hmem, rfl⟩ := mem_newEvents hnew
  exact ⟨i, r, hmem, rfl⟩

end commit

end NotificationSystem
