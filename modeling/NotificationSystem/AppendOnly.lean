import NotificationSystem.Integrity

/-!
# What is never taken back

Of what the service writes only the idempotency records are deleted. The other tables grow: rows
are appended, and of the rows that are there some columns change and the others never do.

* `Store.Grows` — a later store has the rows of an earlier one, in their order.
* `append_only` — every run makes the store grow, and deletes no record before it expires.
-/

namespace NotificationSystem

open Lib

variable {env : Deployment} {s s' : State} {a : Action} {cfg : Settings} {st st' st'' : Store}
  {id : Uuid} {payload : Payload} {loaded updated : Notification}

/-- What workers and publishers write to grows. -/
structure Store.Delivers (st st' : Store) : Prop where
  notifications : Table.Grows Notification.asCreated st.notifications st'.notifications
  history : st.history <+: st'.history
  outbox : Table.Grows OutboxEvent.asWritten st.outbox st'.outbox

/-- The store grows: of a batch only the key changes, of a notification what its attempts change,
of an event what the publishers do with it, and of a history row nothing. -/
structure Store.Grows (st st' : Store) : Prop extends st.Delivers st' where
  batches : Table.Grows NotificationBatch.asCreated st.batches st'.batches

theorem Store.Grows.refl (st : Store) : st.Grows st where
  notifications := Table.grows_refl _
  history := List.prefix_refl _
  outbox := Table.grows_refl _
  batches := Table.grows_refl _

theorem Store.Grows.trans (h : st.Grows st') (h' : st'.Grows st'') : st.Grows st'' where
  notifications := h.notifications.trans h'.notifications
  history := h.history.trans h'.history
  outbox := h.outbox.trans h'.outbox
  batches := h.batches.trans h'.batches

theorem delivers_of_eq (hn : st'.notifications = st.notifications)
    (hh : st'.history = st.history) (ho : st'.outbox = st.outbox) : st.Delivers st' where
  notifications := hn ▸ Table.grows_refl _
  history := hh ▸ List.prefix_refl _
  outbox := ho ▸ Table.grows_refl _

theorem grows_saveNotification : Table.Grows Notification.asCreated st.notifications
    (st.saveNotification loaded updated).notifications :=
  Table.grows_modify (Notification.writeBack_id loaded updated) fun _ => rfl

theorem reserved_delivers {t₁ t₂ t₃ : Time} {ids : EventIds} {out : Option Notification}
    (h : Reserved cfg st id payload t₁ t₂ t₃ ids st' out) : st.Delivers st' := by
  cases h with
  | missing | final | covered => exact delivers_of_eq rfl rfl rfl
  | deferred _ _ _ _ hins =>
    exact ⟨Table.grows_refl _, List.prefix_refl _, Table.grows_insert? hins⟩
  | refused _ _ _ _ hins =>
    exact ⟨grows_saveNotification, List.prefix_append _ _, Table.grows_insert? hins⟩
  | attempt => exact ⟨grows_saveNotification, List.prefix_append _ _, Table.grows_refl _⟩

theorem applied_delivers {result : ProviderResult} {t₁ t₂ : Time} {ids : EventIds}
    (h : Applied cfg st id payload loaded result t₁ t₂ ids st') : st.Delivers st' := by
  cases h with
  | guarded => exact delivers_of_eq rfl rfl rfl
  | delivered => exact ⟨grows_saveNotification, List.prefix_append _ _, Table.grows_refl _⟩
  | retried _ _ _ hins =>
    exact ⟨grows_saveNotification, List.prefix_refl _, Table.grows_insert? hins⟩
  | dropped _ _ _ hins =>
    exact ⟨grows_saveNotification, List.prefix_append _ _, Table.grows_insert? hins⟩

theorem saveOutboxEvent_delivers {row saved : OutboxEvent} :
    st.Delivers (st.saveOutboxEvent row saved) :=
  ⟨Table.grows_refl _, List.prefix_refl _,
    Table.grows_modify (OutboxEvent.writeBack_id row saved) fun _ => rfl⟩

theorem Change.delivers (h : Change env s a s') : s.store.Delivers s'.store := by
  cases h with
  | quiet _ hn hh ho => exact delivers_of_eq hn hh ho
  | call => exact delivers_of_eq rfl rfl rfl
  | reserve _ _ _ _ _ hres =>
    rw [afterReserve_store]
    exact reserved_delivers hres
  | apply _ _ _ _ happ => exact applied_delivers happ
  | @claim p t₁ t₂ t₃ _ _ _ _ _ _ _ heq =>
    subst heq
    exact ⟨Table.grows_refl _, List.prefix_refl _,
      Table.grows_modifyWhere (OutboxEvent.claimed_id t₃) fun _ => rfl⟩
  | recordPublished | recordRaised => exact saveOutboxEvent_delivers
  | commit _ _ _ hcom =>
    obtain ⟨hn, hh, ho⟩ := commitBulk_delivery hcom
    exact ⟨Table.grows_insertAll? hn, hh ▸ List.prefix_append _ _, Table.grows_insertAll? ho⟩

/-- Batches are added, or lose their keys. -/
theorem batches_grow (hs : Recorded s) (h : step env s a = some s') :
    Table.Grows NotificationBatch.asCreated s.store.batches s'.store.batches := by
  cases apiChange_of_step h with
  | quiet _ _ _ heq => exact heq ▸ Table.grows_refl _
  | select | stop => exact Table.grows_refl _
  | delete => exact Table.grows_map rows_deleteExpired fun _ => asCreated_releasedBy _
  | request _ hchange =>
    rcases hs.request_store hchange with
      hstore | ⟨x, expired, expiresAt, ids, stamps, response, -, -, -, -, hcom⟩
    · exact hstore ▸ Table.grows_refl _
    · rw [Table.Grows, (created_of_commit hcom).batches, List.map_append, List.map_map,
        show NotificationBatch.asCreated ∘ (·.releasedBy expired.toList) =
          NotificationBatch.asCreated from funext fun _ => asCreated_releasedBy _]
      exact List.prefix_append _ _

/-- **Nothing is taken back.** In every run the batches, the notifications, their history and the
events stay where they are, with all that identifies them, and an idempotency record is there
until it expires. -/
theorem append_only {as : List Action} (h : (machine env).Reach Machine.Always s)
    (hrun : (machine env).Run Machine.Always s as s') :
    s.store.Grows s'.store ∧ ∀ r ∈ s.store.idempotencyKeys,
      r ∈ s'.store.idempotencyKeys ∨ r.expiresAt ≤ s'.now := by
  refine ⟨?_, fun r hr => ?_⟩
  · refine Machine.Run.induct (I := fun t => s.store.Grows t.store) h (.refl _)
      (fun t a t' ht hgrows _ hstep => hgrows.trans ?_) hrun
    exact ⟨(change_of_step hstep).delivers, batches_grow (recorded_reach ht) hstep⟩
  · by_cases hlive : s'.now < r.expiresAt
    · exact .inl (Table.mem_of_get (live_run h (Table.get_of_mem hr) hrun hlive))
    · exact .inr (not_lt.1 hlive)

/-- A batch and its notification stay when the record expires and the batch loses its key. -/
theorem append_only_expired : ∃ s s' : State,
    s.store.idempotencyKeys.rows ≠ [] ∧ s'.store.idempotencyKeys.rows = [] ∧
      s.store.notifications.rows ≠ [] ∧
      (s.store.Grows s'.store ∧ ∀ r ∈ s.store.idempotencyKeys,
        r ∈ s'.store.idempotencyKeys ∨ r.expiresAt ≤ s'.now) := by
  let cleanup : List Action := [.cleaner 0 (.select (Sample.sec 86400)),
    .cleaner 0 (.delete (Sample.sec 86400))]
  obtain ⟨s, hrun, hs⟩ := Machine.Run.exists_of_exec_always (machine Sample.env) (.initial 0)
    Sample.creation
    (fun s => (s.store.idempotencyKeys.rows ≠ [] && s.store.notifications.rows ≠ []) &&
      ((machine Sample.env).exec s cleanup).any fun s' => s'.store.idempotencyKeys.rows = [])
    (by decide)
  rw [Bool.and_eq_true, Bool.and_eq_true, decide_eq_true_eq, decide_eq_true_eq] at hs
  obtain ⟨⟨hkeys, hrows⟩, hcleanup⟩ := hs
  obtain ⟨s', hrun', hs'⟩ := Machine.Run.exists_of_exec_always (machine Sample.env) s cleanup _
    hcleanup
  exact ⟨s, s', hkeys, of_decide_eq_true hs', hrows,
    append_only (.run (.init ⟨0, rfl⟩) hrun) hrun'⟩

end NotificationSystem
