import NotificationSystem.Fingerprint
import NotificationSystem.ProviderCalls

/-!
# Integrity

The model's writes check primary keys and the two unique constraints, not the foreign keys of the
schema, nor that the copies of a batch's columns in its notifications agree. None of these can
fail: they hold in every reachable state, and everything that is stored or sent goes back to a
request.

* `batches_keep`, `batch_of_step`, `notification_of_step` — where the rows of a step come from.
* `database_integrity` — the constraints of the schema.
* `calls_requested` — what a provider is told was asked for.
-/

namespace NotificationSystem

open Lib

variable {env : Deployment} {s s' : State} {a : Action} {b b' : NotificationBatch}
  {n n' : Notification} {id : Uuid}

/-- The batch without its key, which is all that is ever taken from it. -/
def NotificationBatch.asCreated (b : NotificationBatch) : NotificationBatch :=
  { b with idempotencyKey := none }

theorem NotificationBatch.column_eq {α : Type*} (h : b.asCreated = b'.asCreated)
    (f : NotificationBatch → α) (hf : ∀ b, f b.asCreated = f b := by exact fun _ => rfl) :
    f b = f b' := by
  rw [← hf b, h, hf b']

@[simp] theorem asCreated_releasedBy (selected : List IdempotencyKey) :
    (b.releasedBy selected).asCreated = b.asCreated := by
  unfold NotificationBatch.releasedBy
  split <;> rfl

/-! ## The rows of a step -/

theorem batches_keep (hs : Recorded s) (h : step env s a = some s') (hb : b ∈ s.store.batches) :
    ∃ b' ∈ s'.store.batches, b'.asCreated = b.asCreated := by
  cases apiChange_of_step h with
  | quiet _ _ _ heq => exact ⟨b, heq ▸ hb, rfl⟩
  | select | stop => exact ⟨b, hb, rfl⟩
  | @delete c t₂ selected =>
    refine ⟨b.releasedBy selected, ?_, asCreated_releasedBy selected⟩
    rw [Table.mem_def, rows_deleteExpired]
    exact List.mem_map_of_mem hb
  | request _ hchange =>
    rcases hs.request_store hchange with
      hstore | ⟨x, expired, expiresAt, ids, stamps, response, -, -, -, -, hcom⟩
    · exact ⟨b, hstore ▸ hb, rfl⟩
    · exact ⟨b.releasedBy expired.toList,
        (mem_created_batches (created_of_commit hcom)).2 (.inl ⟨b, hb, rfl⟩),
        asCreated_releasedBy _⟩

/-- The rows that a request's commit leaves, besides those that were there. -/
structure CommitsRows (env : Deployment) (s s' : State) (x : Request) (ids : Nat → Uuid)
    (stamps : Nat → Time) : Prop where
  request : ∃ q, s.requests q = some x
  batch : newBatch x.body x.key (env.requestHash x.body) ids ∈ s'.store.batches
  notifications : ∀ n ∈ newNotifications x.body ids stamps, n ∈ s'.store.notifications

theorem batch_of_step (hs : Recorded s) (h : step env s a = some s')
    (hb : b' ∈ s'.store.batches) :
    (∃ b ∈ s.store.batches, b'.asCreated = b.asCreated) ∨
      ∃ x ids stamps, CommitsRows env s s' x ids stamps ∧
        b' = newBatch x.body x.key (env.requestHash x.body) ids := by
  cases apiChange_of_step h with
  | quiet _ _ _ heq => exact .inl ⟨b', heq ▸ hb, rfl⟩
  | select | stop => exact .inl ⟨b', hb, rfl⟩
  | @delete c t₂ selected =>
    rw [Table.mem_def, rows_deleteExpired] at hb
    obtain ⟨b, hmem, rfl⟩ := List.mem_map.1 hb
    exact .inl ⟨b, hmem, asCreated_releasedBy selected⟩
  | @request q _ _ _ hchange =>
    rcases hs.request_store hchange with
      hstore | ⟨x, expired, expiresAt, ids, stamps, response, hx, -, -, -, hcom⟩
    · exact .inl ⟨b', hstore ▸ hb, rfl⟩
    · have hcreated := created_of_commit hcom
      rcases (mem_created_batches hcreated).1 hb with ⟨b, hmem, rfl⟩ | rfl
      · exact .inl ⟨b, hmem, asCreated_releasedBy _⟩
      · refine .inr ⟨x, ids, stamps, ⟨⟨q, hx⟩, hb, fun n hn => ?_⟩, rfl⟩
        rw [Table.mem_def, hcreated.notifications]
        exact List.mem_append_right _ hn

theorem mem_saveNotification {st : Store} {loaded updated : Notification}
    (h : n' ∈ (st.saveNotification loaded updated).notifications) :
    ∃ n ∈ st.notifications, n'.asCreated = n.asCreated := by
  have hget := Table.get_of_mem h
  rw [get_saveNotification] at hget
  split at hget
  · obtain ⟨n, hn, rfl⟩ := Option.map_eq_some_iff.1 hget
    exact ⟨n, Table.mem_of_get hn, rfl⟩
  · exact ⟨n', Table.mem_of_get hget, rfl⟩

theorem notification_of_step (h : step env s a = some s') (hn : n' ∈ s'.store.notifications) :
    (∃ n ∈ s.store.notifications, n'.asCreated = n.asCreated) ∨
      ∃ x ids stamps, CommitsRows env s s' x ids stamps ∧
        n' ∈ newNotifications x.body ids stamps := by
  have hchange := change_of_step h
  cases hchange with
  | quiet _ heq => exact .inl ⟨n', heq ▸ hn, rfl⟩
  | call | recordPublished | recordRaised => exact .inl ⟨n', hn, rfl⟩
  | claim _ _ _ _ heq =>
    subst heq
    exact .inl ⟨n', hn, rfl⟩
  | reserve _ _ _ _ _ hres =>
    rw [afterReserve_store] at hn
    cases hres with
    | missing | final | covered | deferred => exact .inl ⟨n', hn, rfl⟩
    | refused | attempt => exact .inl (mem_saveNotification hn)
  | apply _ _ _ _ happ =>
    rw [afterApply_store] at hn
    cases happ with
    | guarded => exact .inl ⟨n', hn, rfl⟩
    | delivered | retried | dropped => exact .inl (mem_saveNotification hn)
  | @commit q r reservation ids stamps st response hq _ _ hcom =>
    obtain ⟨st₁, batches, notifications, outbox, -, hwrite, hb, hnew, -, -, -, rfl⟩ :=
      commitBulk_ok hcom
    obtain ⟨hnots, -, -⟩ := commitBulk_delivery hcom
    rcases (Table.mem_insertAll? hnots).1 hn with hold | hadded
    · exact .inl ⟨n', hold, rfl⟩
    · refine .inr ⟨r, ids, stamps, ⟨⟨q, hq⟩, (Table.mem_insert? hb).2 (.inr rfl), fun k hk => ?_⟩,
        hadded⟩
      exact (Table.mem_insertAll? hnots).2 (.inr hk)

theorem request_keeps {q : Nat} {x : Request} (h : step env s a = some s')
    (hx : s.requests q = some x) :
    ∃ x', s'.requests q = some x' ∧ x'.key = x.key ∧ x'.body = x.body := by
  cases apiChange_of_step h with
  | quiet _ heq => exact ⟨x, heq ▸ hx, rfl, rfl⟩
  | select | stop | delete => exact ⟨x, hx, rfl, rfl⟩
  | request _ hchange _ hothers => exact request_stays hchange hothers hx

/-! ## The invariant -/

/-- The batch `b` holds the notification `n`: the copies of the batch's columns agree. -/
def NotificationBatch.Holds (b : NotificationBatch) (n : Notification) : Prop :=
  b.id = n.batchId ∧ b.channel = n.channel ∧ b.type = n.type ∧ b.message = n.message

/-- The request asks for the notification `n`. -/
def BulkNotificationRequest.Asks (request : BulkNotificationRequest) (n : Notification) : Prop :=
  n.subscriberId ∈ request.recipientIds ∧ n.channel = request.channel ∧ n.type = request.type ∧
    n.message = request.message

/-- Every notification is in a batch and was asked for; every batch has a notification. -/
structure Intact (s : State) : Prop where
  batch : ∀ n ∈ s.store.notifications, ∃ b ∈ s.store.batches, b.Holds n
  filled : ∀ b ∈ s.store.batches, ∃ n ∈ s.store.notifications, n.batchId = b.id
  asked : ∀ n ∈ s.store.notifications, ∃ q x, s.requests q = some x ∧ x.body.Asks n

section new

variable {request : BulkNotificationRequest} {key requestHash : String} {ids : Nat → Uuid}
  {stamps : Nat → Time}

theorem newBatch_holds (h : n ∈ newNotifications request ids stamps) :
    (newBatch request key requestHash ids).Holds n := by
  obtain ⟨i, r, -, rfl⟩ := mem_newNotifications h
  exact ⟨rfl, rfl, rfl, rfl⟩

theorem asks_of_new (h : n ∈ newNotifications request ids stamps) : request.Asks n := by
  obtain ⟨i, hi, rfl⟩ := List.mem_mapIdx.1 h
  refine ⟨?_, rfl, rfl, rfl⟩
  exact List.mem_eraseDups.1 (List.getElem_mem hi)

/-- A request has a recipient, so its batch has a notification. -/
theorem exists_newNotification (request : BulkNotificationRequest) (ids : Nat → Uuid)
    (stamps : Nat → Time) :
    ∃ n ∈ newNotifications request ids stamps, n.batchId = ids 0 := by
  obtain ⟨r, hr⟩ := List.exists_mem_of_length_pos (Nat.lt_of_lt_of_le Nat.zero_lt_one
    request.recipientIds_length.1)
  have hdistinct : r ∈ distinctRecipients request.recipientIds := List.mem_eraseDups.2 hr
  obtain ⟨i, hi, heq⟩ := List.getElem_of_mem hdistinct
  exact ⟨_, List.mem_mapIdx.2 ⟨i, hi, rfl⟩, rfl⟩

end new

theorem holds_of_asCreated (hb : b'.asCreated = b.asCreated) (hn : n'.asCreated = n.asCreated)
    (h : b.Holds n) : b'.Holds n' := by
  have hb' : b'.asCreated.Holds n'.asCreated := by
    rw [hb, hn]
    exact h
  exact hb'

theorem asks_of_asCreated {request : BulkNotificationRequest} (hn : n'.asCreated = n.asCreated)
    (h : request.Asks n) : request.Asks n' := by
  have hn' : request.Asks n'.asCreated := by
    rw [hn]
    exact h
  exact hn'

theorem intact_step (hs : Recorded s) (hi : Intact s) (h : step env s a = some s') :
    Intact s' := by
  refine ⟨fun n' hn' => ?_, fun b' hb' => ?_, fun n' hn' => ?_⟩
  · rcases notification_of_step h hn' with ⟨n, hn, hsame⟩ | ⟨x, ids, stamps, hrows, hnew⟩
    · obtain ⟨b, hb, hholds⟩ := hi.batch n hn
      obtain ⟨b', hb', hsame'⟩ := batches_keep hs h hb
      exact ⟨b', hb', holds_of_asCreated hsame' hsame hholds⟩
    · exact ⟨_, hrows.batch, newBatch_holds hnew⟩
  · rcases batch_of_step hs h hb' with ⟨b, hb, hsame⟩ | ⟨x, ids, stamps, hrows, rfl⟩
    · obtain ⟨n, hn, hid⟩ := hi.filled b hb
      obtain ⟨n', hget, hsame'⟩ := (change_of_step h).keepsCreated n.id n (Table.get_of_mem hn)
      have hbatch : n'.batchId = n.batchId := Notification.column_eq hsame' (·.batchId)
      have hb' : b'.id = b.id := NotificationBatch.column_eq hsame (·.id)
      exact ⟨n', Table.mem_of_get hget, hbatch.trans (hid.trans hb'.symm)⟩
    · obtain ⟨n, hn, hid⟩ := exists_newNotification x.body ids stamps
      exact ⟨n, hrows.notifications n hn, hid⟩
  · rcases notification_of_step h hn' with ⟨n, hn, hsame⟩ | ⟨x, ids, stamps, hrows, hnew⟩
    · obtain ⟨q, x, hx, hasks⟩ := hi.asked n hn
      obtain ⟨x', hx', -, hbody⟩ := request_keeps h hx
      exact ⟨q, x', hx', hbody ▸ asks_of_asCreated hsame hasks⟩
    · obtain ⟨q, hx⟩ := hrows.request
      obtain ⟨x', hx', -, hbody⟩ := request_keeps h hx
      exact ⟨q, x', hx', hbody ▸ asks_of_new hnew⟩

theorem intact_reach {ok : State → Action → Prop} (h : (machine env).Reach ok s) : Intact s := by
  refine Machine.Reach.induct ?_ ?_ h
  · rintro _ ⟨now, rfl⟩
    exact ⟨fun n hn => absurd hn Table.not_mem_empty, fun b hb => absurd hb Table.not_mem_empty,
      fun n hn => absurd hn Table.not_mem_empty⟩
  · exact fun t a t' ht hi _ hstep => intact_step (recorded_reach ht) hi hstep

/-! ## The schema -/

/-- The constraints of the schema, and what the code relies on beside them. -/
structure Store.Integrity (st : Store) : Prop where
  uniqueKeys : uniqueBatchKeys st.batches
  uniqueRecipients : uniquePerBatchSubscriber st.notifications
  batch : ∀ n ∈ st.notifications, ∃ b ∈ st.batches, b.Holds n
  filled : ∀ b ∈ st.batches, ∃ n ∈ st.notifications, n.batchId = b.id
  history : ∀ row ∈ st.history, st.Has row.notificationId
  events : ∀ e ∈ st.outbox, st.Has e.aggregateId
  records : ∀ r ∈ st.idempotencyKeys, ∃ b ∈ st.batches, st.Backs b r

/-- **The database is intact in every reachable state.** The foreign keys and the unique constraints
hold, the notifications of a batch agree with it and are for different recipients, no batch is
empty, and an idempotency record answers with the batch of its key and the number of notifications
in it. -/
theorem database_integrity {ok : State → Action → Prop} (h : (machine env).Reach ok s) :
    s.store.Integrity := by
  have hi := intact_reach h
  have hr := recorded_reach h
  have hrefs := referenced_reach h
  exact ⟨hr.unique, hr.perBatch, hi.batch, hi.filled, hrefs.history, hrefs.outbox, hr.records⟩

/-- Two recipients, one of them named twice. -/
theorem database_integrity_repeated : ∃ s : State,
    s.store.notifications.rows.map (·.subscriberId) = [7, 8] ∧ s.store.Integrity := by
  obtain ⟨s, hrun, hs⟩ := Machine.Run.exists_of_exec_always (machine Sample.env) (.initial 0)
    [.request 0 (.submit Sample.repeated "key"), .request 0 (.read 0 0),
      .request 0 (.commit id fun _ => 0)]
    (fun s => s.store.notifications.rows.map (·.subscriberId) = [7, 8]) (by decide)
  exact ⟨s, of_decide_eq_true hs, database_integrity ⟨_, _, ⟨0, rfl⟩, hrun⟩⟩

/-! ## What a provider is told -/

/-- The instances and the calls of a notification are copies of its row. -/
structure Lifecycle.Copied (l : Lifecycle) : Prop where
  flights : ∀ w f, l.flights w = some f → ∃ n, l.row = some n ∧ f.loaded.asCreated = n.asCreated
  calls : ∀ c ∈ l.calls, ∃ n, l.row = some n ∧ c.recipientId = n.subscriberId ∧
    c.message = n.message

theorem row_persists {cfg : Settings} {l l' : Lifecycle} (h : l.Step cfg a l')
    (hn : l.row = some n) : ∃ n', l'.row = some n' ∧ n'.asCreated = n.asCreated := by
  cases h with
  | quiet _ hrow => exact ⟨n, hrow ▸ hn, rfl⟩
  | create hnone => cases hnone.symm.trans hn
  | call | defer => exact ⟨n, hn, rfl⟩
  | reserve _ _ _ hrow | refuse _ _ _ hrow | deliver _ _ _ _ _ hrow | retry _ _ _ _ _ _ hrow
  | drop _ _ _ _ _ _ hrow =>
    obtain rfl := Option.some.inj (hrow.symm.trans hn)
    exact ⟨_, rfl, rfl⟩

theorem copied_step {cfg : Settings} {l l' : Lifecycle} (hl : l.Copied) (h : l.Step cfg a l') :
    l'.Copied := by
  refine ⟨fun w f hf => ?_, fun c hc => ?_⟩
  · rcases h.flight hf with ⟨f₀, hf₀, hloaded, -⟩ | ⟨n, lockUntil, -, hloaded, hrow, -⟩
    · obtain ⟨n, hn, hsame⟩ := hl.flights w f₀ hf₀
      obtain ⟨n', hn', hkept⟩ := row_persists h hn
      exact ⟨n', hn', by rw [hloaded, hsame, hkept]⟩
    · exact ⟨_, hrow, by rw [hloaded]⟩
  · have old (hold : c ∈ l.calls) : ∃ n', l'.row = some n' ∧ c.recipientId = n'.subscriberId ∧
        c.message = n'.message := by
      obtain ⟨n, hn, hto, hsays⟩ := hl.calls c hold
      obtain ⟨n', hn', hkept⟩ := row_persists h hn
      exact ⟨n', hn', hto.trans (Notification.column_eq hkept (·.subscriberId)).symm,
        hsays.trans (Notification.column_eq hkept (·.message)).symm⟩
    cases h with
    | quiet _ _ _ _ hcalls => exact old (hcalls ▸ hc)
    | create | reserve | defer | refuse | deliver | retry | drop => exact old hc
    | @call w f hw =>
      rcases List.mem_append.1 hc with hc | hc
      · exact old hc
      · obtain rfl := List.mem_singleton.1 hc
        obtain ⟨n, hn, hsame⟩ := hl.flights w f hw
        exact ⟨n, hn, Notification.column_eq hsame (·.subscriberId),
          Notification.column_eq hsame (·.message)⟩

theorem copied_reach {ok : State → Action → Prop} (h : (machine env).Reach ok s) (id : Uuid) :
    (s.lifecycle id).Copied :=
  lifecycle_induct
    (fun _ => ⟨fun _ _ hf => (by cases hf), fun _ hc => (by cases hc)⟩)
    (fun _ _ _ _ _ hl hstep => copied_step hl hstep) h

/-- **What a provider is told was asked for.** Each call names a recipient, and carries the message,
of a request on the call's channel; and two calls for the same recipient of a batch have the same
idempotency key, so that a provider that honours it sends a batch once to each recipient. -/
theorem calls_requested {ok : State → Action → Prop} (h : (machine env).Reach ok s) :
    (∀ c ∈ s.calls, ∃ n q x, s.store.notifications.get c.idempotencyKey = some n ∧
        s.requests q = some x ∧ c.recipientId ∈ x.body.recipientIds ∧
        c.message = x.body.message ∧ n.channel = x.body.channel) ∧
      ∀ c ∈ s.calls, ∀ c' ∈ s.calls, ∀ n n',
        s.store.notifications.get c.idempotencyKey = some n →
        s.store.notifications.get c'.idempotencyKey = some n' → n.batchId = n'.batchId →
        c.recipientId = c'.recipientId → c.idempotencyKey = c'.idempotencyKey := by
  have copied (c : ProviderCall) (hc : c ∈ s.calls) :
      ∃ n, s.store.notifications.get c.idempotencyKey = some n ∧
        c.recipientId = n.subscriberId ∧ c.message = n.message :=
    (copied_reach h c.idempotencyKey).calls c (List.mem_filter.2 ⟨hc, by simp⟩)
  refine ⟨fun c hc => ?_, fun c hc c' hc' n n' hn hn' hbatch hto => ?_⟩
  · obtain ⟨n, hn, hto, hsays⟩ := copied c hc
    obtain ⟨q, x, hx, hasks, hchannel, -, hmessage⟩ :=
      (intact_reach h).asked n (Table.mem_of_get hn)
    exact ⟨n, q, x, hn, hx, hto ▸ hasks, hsays.trans hmessage, hchannel⟩
  · obtain ⟨m, hm, hm', -⟩ := copied c hc
    obtain ⟨k, hk, hk', -⟩ := copied c' hc'
    obtain rfl := Option.some.inj (hm.symm.trans hn)
    obtain rfl := Option.some.inj (hk.symm.trans hn')
    have hunique : uniquePerBatchSubscriber s.store.notifications := (recorded_reach h).perBatch
    have hsame := List.inj_on_of_nodup_map hunique (Table.mem_of_get hm) (Table.mem_of_get hk)
      (Prod.ext hbatch (hm'.symm.trans (hto.trans hk')))
    rw [← Table.get_key hm, ← Table.get_key hk, hsame]

/-- The first call of a run. -/
theorem calls_requested_first : ∃ s : State, s.calls = [⟨7, "hello", 1, 1⟩] ∧
    ((∀ c ∈ s.calls, ∃ n q x, s.store.notifications.get c.idempotencyKey = some n ∧
        s.requests q = some x ∧ c.recipientId ∈ x.body.recipientIds ∧
        c.message = x.body.message ∧ n.channel = x.body.channel) ∧
      ∀ c ∈ s.calls, ∀ c' ∈ s.calls, ∀ n n',
        s.store.notifications.get c.idempotencyKey = some n →
        s.store.notifications.get c'.idempotencyKey = some n' → n.batchId = n'.batchId →
        c.recipientId = c'.recipientId → c.idempotencyKey = c'.idempotencyKey) := by
  obtain ⟨s, hrun, hs⟩ := Machine.Run.exists_of_exec_always (machine Sample.env) (.initial 0)
    (Sample.attempt ++ [.worker 0 .send]) (fun s => s.calls = [⟨7, "hello", 1, 1⟩]) (by decide)
  exact ⟨s, of_decide_eq_true hs, calls_requested ⟨_, _, ⟨0, rfl⟩, hrun⟩⟩

end NotificationSystem
