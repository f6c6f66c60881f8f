import NotificationSystem.Drain
import NotificationSystem.NoLoss
import NotificationSystem.Redelivery
import NotificationSystem.Routing
import NotificationSystem.Timely

/-!
# An open notification can end

Safety alone would allow a system in which nothing moves any more. Here workers, publishers and
the clock go on from any reachable state, with no crash, no failing call, no returned message and
no new request, and bring a given notification to a final state, unless one of its events or
messages is out of reach of every process: the event was given up, the message was dead-lettered or
may be when it is returned the next time (`x-delivery-limit`), or the event is claimed with no time
in `locked_at`, so that no claim ever times out.

* `Smooth` — the steps such a run is made of.
* `Publishing`, `published_smoothly` — an event that can be claimed reaches a work queue.
* `received_ends`, `responded_ends` — what a worker makes of a delivery.
* `open_notification_can_end` — the theorem.
* `untimed_claim_stuck` — the third exception is for ever: nobody publishes such an event again.
-/

namespace NotificationSystem

open Lib

variable {env : Deployment} {s s' s₀ : State} {id e : Uuid} {p w : Nat} {d : Delivery}
  {n : Notification} {m : Message} {T deadline : Time}

/-- A step of a worker, a publisher or the clock with which nothing goes wrong. -/
def Smooth (_ : State) : Action → Prop
  | .worker _ (.sendRaises _) | .worker _ (.reject _) | .worker _ (.crash _)
  | .worker _ (.disconnect _) => False
  | .publisher _ (.publishRaises _ _) | .publisher _ .crash => False
  | .worker _ _ | .publisher _ _ | .tick _ => True
  | .request _ _ | .cleaner _ _ | .redisExpire _ => False

/-- A smooth run. -/
abbrev SmoothRun (env : Deployment) (s : State) (as : List Action) (s' : State) : Prop :=
  (machine env).Run Smooth s as s'

/-- The notification is delivered or dropped. -/
def State.Ended (s : State) (id : Uuid) : Prop :=
  ∃ n, s.store.notifications.get id = some n ∧ n.isFinal = true

/-- A smooth run brings the notification to its end. -/
def CanEnd (env : Deployment) (s : State) (id : Uuid) : Prop :=
  ∃ as s', SmoothRun env s as s' ∧ s'.Ended id

theorem CanEnd.of_run {as : List Action} (hrun : SmoothRun env s as s') (h : CanEnd env s' id) :
    CanEnd env s id := by
  obtain ⟨bs, t, hbs, ht⟩ := h
  exact ⟨as ++ bs, t, hrun.trans hbs, ht⟩

theorem SmoothRun.of_step {a : Action} (hstep : step env s a = some s') (hok : Smooth s a) :
    SmoothRun env s [a] s' := .single hok hstep

theorem CanEnd.of_step {a : Action} (hstep : step env s a = some s') (hok : Smooth s a)
    (h : CanEnd env s' id) : CanEnd env s id :=
  h.of_run (.of_step hstep hok)

theorem reach_step {a : Action} (h : (machine env).Reach Machine.Always s)
    (hstep : step env s a = some s') : (machine env).Reach Machine.Always s' :=
  Machine.Reach.step h trivial hstep

/-! ## Idle processes and unused ids -/

/-- Only finitely many workers and publishers have begun something. -/
def FewBusy (s : State) : Prop :=
  ∃ N, ∀ k, N ≤ k → s.workers k = .idle ∧ s.publishers k = .idle

theorem fewBusy_step {a : Action} (hs : FewBusy s) (h : step env s a = some s') : FewBusy s' := by
  obtain ⟨N, hN⟩ := hs
  rcases step_party h with ⟨w, b, rfl, hw⟩ | ⟨p, b, rfl, hp⟩ | hf
  · have hframe := workerStep_frame hw
    refine ⟨max N (w + 1), fun k hk => ?_⟩
    rw [hframe.workers k (by omega), hframe.publishers]
    exact hN k (by omega)
  · have hframe := publisherStep_frame hp
    refine ⟨max N (p + 1), fun k hk => ?_⟩
    rw [hframe.publishers k (by omega), hframe.workers]
    exact hN k (by omega)
  · exact ⟨N, fun k hk => by rw [hf.workers, hf.publishers]; exact hN k hk⟩

theorem fewBusy_reach {ok : State → Action → Prop} (h : (machine env).Reach ok s) : FewBusy s := by
  refine Machine.Reach.induct ?_ (fun t a t' _ ht _ hstep => fewBusy_step ht hstep) h
  rintro _ ⟨now, rfl⟩
  exact ⟨0, fun _ _ => ⟨rfl, rfl⟩⟩

theorem exists_idle {ok : State → Action → Prop} (h : (machine env).Reach ok s) :
    ∃ k, s.workers k = .idle ∧ s.publishers k = .idle := by
  obtain ⟨N, hN⟩ := fewBusy_reach h
  exact ⟨N, hN N le_rfl⟩

theorem exists_fresh (st : Store) : ∃ ids : EventIds, st.Fresh [ids.eventId, ids.rowId] := by
  obtain ⟨i, hi⟩ := Infinite.exists_notMem_finset st.uuids.toFinset
  obtain ⟨j, hj⟩ := Infinite.exists_notMem_finset (i :: st.uuids).toFinset
  simp only [List.mem_toFinset, List.mem_cons, not_or] at hi hj
  refine ⟨⟨i, j⟩, by simpa using Ne.symm hj.1, fun k hk => ?_⟩
  rcases List.mem_cons.1 hk with rfl | hk
  · exact hi
  · rw [List.mem_singleton.1 hk]
    exact hj.2

theorem rowId_fresh {st : Store} {ids : EventIds} (h : st.Fresh [ids.eventId, ids.rowId]) :
    ∀ e ∈ st.outbox, e.id ≠ ids.rowId := fun _ he heq =>
  h.2 ids.rowId (by simp) (heq ▸ mem_uuids_of_event he)

/-! ## What a worker makes of a delivery -/

theorem delivered_ends {result : ProviderResult} (hw : s.workers w = .responded d n result)
    (hopen : n.isFinal = false) (hres : (result.success && result.delivered) = true)
    (hfits : result.storable = true) (hid : d.message.payload.notificationId = n.id)
    (hhas : s.store.Has n.id) :
    CanEnd env s n.id := by
  obtain ⟨stored, hstored⟩ := hhas
  obtain ⟨ids, hids⟩ := exists_fresh s.store
  have happ : apply env.toSettings s.store d.message.payload.notificationId d.message.payload n
      result s.now s.now ids = .ok (markDelivered s.store n result s.now) := by
    simp [apply, hid, hstored, hopen, hres, commitResult, hfits]
  have hstep : step env s (.worker w (.apply s.now s.now ids)) =
      some (afterApply s w d s.now (.ok (markDelivered s.store n result s.now))) := by
    simp [step, workerStep, hw, hids, happ]
  refine ⟨_, _, SmoothRun.of_step hstep trivial,
    Notification.writeBack n (n.markedDelivered result) stored, ?_, ?_⟩
  · rw [afterApply_store, markDelivered, addHistory_notifications, get_saveNotification,
      if_pos rfl, hstored, Option.map_some]
  · have hne : (n.markedDelivered result).status ≠ n.status := by
      intro heq
      simp [Notification.isFinal, ← heq, Notification.markedDelivered] at hopen
    simp only [Notification.isFinal, Notification.writeBack, writeColumn_of_ne hne]
    simp [Notification.markedDelivered]

theorem calling_ends (hw : s.workers w = .calling d n) (hopen : n.isFinal = false)
    (hid : d.message.payload.notificationId = n.id) (hhas : s.store.Has n.id) :
    CanEnd env s n.id := by
  let result : ProviderResult := { success := true, delivered := true }
  have hstep : step env s (.worker w (.answer result)) =
      some (s.setWorker w (.responded d n result)) := by
    simp [step, workerStep, hw]
  exact .of_step hstep trivial (delivered_ends setWorker_self hopen rfl rfl hid hhas)

theorem reserved_ends (hw : s.workers w = .reserved d n) (hopen : n.isFinal = false)
    (hid : d.message.payload.notificationId = n.id) (hhas : s.store.Has n.id) :
    CanEnd env s n.id := by
  have hstep : step env s (.worker w .send) =
      some { s.setWorker w (.calling d n) with calls := s.calls ++ [providerCall n] } := by
    simp [step, workerStep, hw]
  exact .of_step hstep trivial (calling_ends setWorker_self hopen hid hhas)

/-- A delivery whose notification is not locked any more makes the worker start an attempt, or
drop the notification after too many of them. -/
theorem received_ends (hw : s.workers w = .received d)
    (hid : d.message.payload.notificationId = id)
    (hn : s.store.notifications.get id = some n)
    (hlock : n.hasActiveProcessingLock s.now = false)
    (hadd : (addSeconds s.now env.processingLockTtlSeconds).isSome = true) :
    CanEnd env s id := by
  obtain ⟨ids, hids⟩ := exists_fresh s.store
  have hone : ∀ m, s.store.notifications.get id = some m →
      m.hasActiveProcessingLock s.now = true → (deferredRedeliveries s.store m).length ≤ 1 := by
    intro m hm hactive
    obtain rfl := Option.some.inj (hn.symm.trans hm)
    simp [hlock] at hactive
  obtain ⟨⟨st, out⟩, hok⟩ : ∃ r, reserve env.toSettings s.store id d.message.payload s.now s.now
      s.now ids = .ok r :=
    reserve_total hone (rowId_fresh hids) (.inr (Option.isSome_iff_ne_none.1 hadd))
  have hstep : step env s (.worker w (.reserve s.now s.now s.now ids)) =
      some (afterReserve s w d s.now (.ok (st, out))) := by
    simp [step, workerStep, hw, hids, hid, hok]
  cases reserve_ok hok with
  | missing hnone => cases hnone.symm.trans hn
  | final hm hfinal => exact ⟨[], s, .nil, _, hm, hfinal⟩
  | covered hm _ hactive | deferred hm _ hactive =>
    obtain rfl := Option.some.inj (hn.symm.trans hm)
    cases hlock.symm.trans hactive
  | @refused m outbox hm _ _ _ hins =>
    obtain rfl := Option.some.inj (hn.symm.trans hm)
    refine ⟨_, _, SmoothRun.of_step hstep trivial,
      Notification.writeBack n n.droppedBeforeProvider n, ?_, ?_⟩
    · rw [afterReserve_store]
      show (s.store.saveNotification n n.droppedBeforeProvider).notifications.get id = _
      rw [get_saveNotification, Table.get_key hn, if_pos rfl, hn, Option.map_some]
    · simp [Notification.writeBack, Notification.isFinal, Notification.droppedBeforeProvider]
  | @attempt m lockUntil hm hopen _ _ hadd' =>
    obtain rfl := Option.some.inj (hn.symm.trans hm)
    obtain rfl : n.id = id := Table.get_key hn
    refine .of_step hstep trivial (reserved_ends (n := n.reserved lockUntil) (w := w) (d := d)
      ?_ ?_ hid ⟨Notification.writeBack n (n.reserved lockUntil) n, ?_⟩)
    · simp [afterReserve]
    · simp [Notification.isFinal, Notification.reserved]
    · rw [afterReserve_store, addHistory_notifications, get_saveNotification]
      show (if n.id = n.id then _ else _) = _
      rw [if_pos rfl]
      show (s.store.notifications.get n.id).map _ = _
      rw [hn, Option.map_some]

theorem queued_ends {ok : State → Action → Prop} (h : (machine env).Reach ok s) {q : QueueName}
    (hq : q ≠ .dlq) (hm : m ∈ s.broker.queues q) (hid : m.payload.notificationId = id)
    (hn : s.store.notifications.get id = some n)
    (hlock : n.hasActiveProcessingLock s.now = false)
    (hadd : (addSeconds s.now env.processingLockTtlSeconds).isSome = true) :
    CanEnd env s id := by
  obtain ⟨w, hw, -⟩ := exists_idle h
  have hstep : step env s (.worker w (.get q m)) =
      some { s.setWorker w (.received ⟨m, q, true⟩) with broker := s.broker.take q m } := by
    simp [step, workerStep, hw, hq, hm]
  exact .of_step hstep trivial (received_ends setWorker_self hid hn hlock hadd)

/-! ## From an event to a message -/

/-- The event has a message in a work queue. -/
def State.Queued (s : State) (e : Uuid) : Prop :=
  ∃ m q, m.event = e ∧ q ≠ .dlq ∧ m ∈ s.broker.queues q

/-- What the publisher holds is what its own claims left. -/
structure Publisher.Current (outbox : Table OutboxEvent.id) (x : Publisher) : Prop where
  nodup : x.unsettled.Nodup
  claims : ∀ c ∈ x.claims, ∃ row ∈ outbox, row.id = c.id ∧ row.status = .processing
  row : ∀ row, x.row? = some row → row ∈ outbox ∧ row.status = .processing
  calls : ∀ row error todo, x ≠ .raised row error todo

/-- The event is one that moves the notification: it was created for it, or it is a retry. -/
def OutboxEvent.Moves (f : OutboxEvent) (id : Uuid) : Prop :=
  f.aggregateId = id ∧ (f.eventType = .created ∨ f.eventType = .retryScheduled)

theorem OutboxEvent.Moves.of_asWritten {f f' : OutboxEvent} (h : f.Moves id)
    (heq : f'.asWritten = f.asWritten) : f'.Moves id := by
  unfold OutboxEvent.Moves
  rw [asWritten_aggregateId heq, asWritten_eventType heq]
  exact h

/-- Publisher `p` goes on alone and at once from `s₀`. Each row that it could claim is in `rest`
or in its batch, and the event `e` is such a row, is still to be published by `p`, or has its
message. -/
structure Publishing (env : Deployment) (s₀ : State) (p : Nat) (id e : Uuid) (deadline : Time)
    (rest : List Uuid) (s : State) : Prop where
  reach : (machine env).Reach Machine.Always s
  now : s.now = s₀.now
  workers : s.workers = s₀.workers
  notifications : s.store.notifications = s₀.store.notifications
  current : (s.publishers p).Current s.store.outbox
  moves : ∀ f ∈ s.store.outbox, f.id = e → f.Moves id
  waiting : ∀ row ∈ s.store.outbox, row.claimable s.now deadline = true →
    row.id ∈ rest ∨ row.id ∈ (s.publishers p).unsettled
  target : s.Queued e ∨ (∃ c ∈ (s.publishers p).claims, c.id = e) ∨
    ∃ row ∈ s.store.outbox, row.id = e ∧ row.claimable s.now deadline = true ∧
      e ∉ (s.publishers p).unsettled

/-- How many steps the publisher needs at most for its batch. -/
def Publisher.batchSteps : Publisher → Nat
  | .idle | .raised _ _ _ => 0
  | .working todo => 3 * todo.length + 1
  | .published _ todo => 3 * todo.length + 2
  | .loaded _ _ todo => 3 * todo.length + 3

/-- The variant: each claim takes an event out of `rest`, and a batch has a bounded length. -/
def PublishesIn (env : Deployment) (s₀ : State) (p : Nat) (id e : Uuid) (deadline : Time)
    (k : Nat) (s : State) : Prop :=
  ∃ rest, Publishing env s₀ p id e deadline rest s ∧
    (3 * env.outboxBatchSize + 2) * rest.length + (s.publishers p).batchSteps = k

/-- A smooth step after which the publisher has less to do. -/
def NearsPublishing (env : Deployment) (s₀ : State) (p : Nat) (id e : Uuid) (deadline : Time)
    (k : Nat) (s : State) : Prop :=
  ∃ a s' j, j < k ∧ Smooth s a ∧ (machine env).step s a = some s' ∧
    PublishesIn env s₀ p id e deadline j s'

section publishing

variable {rest : List Uuid} {c : ClaimedOutboxEvent} {row : OutboxEvent}
  {todo : List ClaimedOutboxEvent}

theorem exchangeBinding_ne_dlq {routingKey : String} {q : QueueName}
    (h : exchangeBinding routingKey = some q) : q ≠ .dlq := by
  rintro rfl
  simp only [exchangeBinding] at h
  split_ifs at h <;> cases h

section current

variable {outbox : Table OutboxEvent.id}

theorem current_idle : Publisher.idle.Current outbox where
  nodup := List.nodup_nil
  claims _ h := by cases h
  row _ h := by cases h
  calls _ _ _ h := by cases h

theorem current_working (hnd : (todo.map (·.id)).Nodup)
    (hclaims : ∀ k ∈ todo, ∃ row ∈ outbox, row.id = k.id ∧ row.status = .processing) :
    (Publisher.working todo).Current outbox where
  nodup := hnd
  claims := hclaims
  row _ h := by cases h
  calls _ _ _ h := by cases h

theorem current_loaded (h : (Publisher.working (c :: todo)).Current outbox) (hrow : row ∈ outbox)
    (hid : row.id = c.id) (hstatus : row.status = .processing) :
    (Publisher.loaded c row todo).Current outbox where
  nodup := by
    rw [Publisher.unsettled, hid]
    exact h.nodup
  claims := h.claims
  row _ h := by
    cases h
    exact ⟨hrow, hstatus⟩
  calls _ _ _ h := by cases h

theorem current_published (h : (Publisher.loaded c row todo).Current outbox) :
    (Publisher.published row todo).Current outbox where
  nodup := h.nodup
  claims k hk := h.claims k (List.mem_cons_of_mem _ hk)
  row _ h' := h.row _ h'
  calls _ _ _ h := by cases h

end current

theorem nearsPublishing_of_step {a : Action} {k : Nat} (hstep : step env s a = some s')
    (hok : Smooth s a) (hnext : Publishing env s₀ p id e deadline rest s')
    (hlt : (3 * env.outboxBatchSize + 2) * rest.length + (s'.publishers p).batchSteps < k) :
    NearsPublishing env s₀ p id e deadline k s :=
  ⟨a, s', _, hlt, hok, hstep, rest, hnext, rfl⟩

/-- The state after an idle publisher has claimed the events at once. -/
def State.claimedBy (s : State) (p : Nat) (events : List OutboxEvent) : State :=
  { s.setPublisher p (.working (events.map (·.toClaimed))) with
    now := s.now
    store := claimRows s.store events s.now }

section idle

variable {events : List OutboxEvent}

theorem claimedBy_publisher :
    (s.claimedBy p events).publishers p = .working (events.map (·.toClaimed)) := by
  simp [State.claimedBy, State.setPublisher]

theorem claimedBy_unsettled :
    ((s.claimedBy p events).publishers p).unsettled = events.map (·.id) := by
  rw [claimedBy_publisher]
  simp [Publisher.unsettled, OutboxEvent.toClaimed]

theorem rest_of_idle (h : Publishing env s₀ p id e deadline rest s) (hp : s.publishers p = .idle)
    (hrow : row ∈ s.store.outbox) (hclaimable : row.claimable s.now deadline = true) :
    row.id ∈ rest := by
  have hor := h.waiting row hrow hclaimable
  rw [hp] at hor
  exact hor.resolve_right List.not_mem_nil

theorem target_of_idle (h : Publishing env s₀ p id e deadline rest s) (hnot : ¬ s.Queued e)
    (hp : s.publishers p = .idle) :
    ∃ row ∈ s.store.outbox, row.id = e ∧ row.claimable s.now deadline = true := by
  have hor := h.target.resolve_left hnot
  rw [hp] at hor
  obtain ⟨row, hrow, hid, hclaimable, -⟩ := hor.resolve_left (by simp [Publisher.claims])
  exact ⟨row, hrow, hid, hclaimable⟩

theorem publishing_claimed (h : Publishing env s₀ p id e deadline rest s) (hnot : ¬ s.Queued e)
    (hp : s.publishers p = .idle)
    (hevents : selectClaimable env.toSettings s.store s.now deadline [] = events)
    (hreach : (machine env).Reach Machine.Always (s.claimedBy p events)) :
    Publishing env s₀ p id e deadline (rest.filter (· ∉ events.map (·.id)))
      (s.claimedBy p events) := by
  constructor
  case reach => exact hreach
  case now => exact h.now
  case workers => exact h.workers
  case notifications => exact h.notifications
  case current =>
    rw [claimedBy_publisher]
    refine current_working ?_ fun c hc => ?_
    · have hnd := nodup_selectClaimable env.toSettings s.store s.now deadline []
      rwa [hevents, ← claimedBy_unsettled (s := s) (p := p), claimedBy_publisher] at hnd
    · obtain ⟨f, hf, rfl⟩ := List.mem_map.1 hc
      exact ⟨f.claimed s.now, claimRows_claims (mem_selectClaimable (hevents ▸ hf)).1 hf, rfl, rfl⟩
  case moves =>
    intro f' hf' hid
    obtain ⟨f, hf, heq⟩ := mem_claimed_asWritten hf'
    exact (h.moves f hf ((asWritten_id heq).symm.trans hid)).of_asWritten heq
  case waiting =>
    intro row' hrow' hclaimable
    obtain ⟨row, hrow, rfl⟩ := mem_claimRows.1 hrow'
    by_cases hmem : row.id ∈ events.map (·.id)
    · rw [claimedBy_unsettled, if_pos hmem]
      exact .inr hmem
    · rw [if_neg hmem] at hclaimable ⊢
      exact .inl (List.mem_filter.2 ⟨rest_of_idle h hp hrow hclaimable, decide_eq_true hmem⟩)
  case target =>
    obtain ⟨row, hrow, hid, hclaimable⟩ := target_of_idle h hnot hp
    right
    by_cases hmem : e ∈ events.map (·.id)
    · obtain ⟨f, hf, hfid⟩ := List.mem_map.1 hmem
      left
      rw [claimedBy_publisher]
      exact ⟨f.toClaimed, List.mem_map_of_mem hf, hfid⟩
    · exact .inr ⟨row, claimRows_keeps hrow (hid ▸ hmem), hid, hclaimable,
        claimedBy_unsettled ▸ hmem⟩

theorem selectClaimable_ne_nil (hrow : row ∈ s.store.outbox)
    (hclaimable : row.claimable s.now deadline = true) :
    selectClaimable env.toSettings s.store s.now deadline [] ≠ [] := by
  intro hnil
  rw [selectClaimable, List.take_eq_nil_iff] at hnil
  rcases hnil with hzero | hempty
  · have hpos := env.outboxBatchSize_bounds.1
    omega
  · have hmem : row ∈ List.insertionSort OutboxEvent.claimsBefore
        (s.store.outbox.rows.filter fun e => e.claimable s.now deadline && e.id ∉ []) := by
      simpa [List.mem_insertionSort, hclaimable] using Table.mem_def.1 hrow
    rw [hempty] at hmem
    cases hmem

/-- An idle publisher claims what it can, the event among it or not. -/
theorem publishing_idle (h : Publishing env s₀ p id e deadline rest s) (hnot : ¬ s.Queued e)
    (hp : s.publishers p = .idle)
    (hdeadline : addSeconds s₀.now (-env.outboxClaimTimeoutSeconds) = some deadline) :
    NearsPublishing env s₀ p id e deadline ((3 * env.outboxBatchSize + 2) * rest.length) s := by
  generalize hevents : selectClaimable env.toSettings s.store s.now deadline [] = events
  have hstep : step env s (.publisher p (.claim s.now s.now s.now [])) =
      some (s.claimedBy p events) := by
    simp [State.claimedBy, step, publisherStep, hp, claimPending, h.now, hdeadline, ← hevents,
      OutboxEvent.toClaimed]
  have hshorter : (rest.filter (· ∉ events.map (·.id))).length < rest.length := by
    obtain ⟨row, hrow, -, hclaimable⟩ := target_of_idle h hnot hp
    obtain ⟨f, hf⟩ := List.exists_mem_of_ne_nil _ (hevents ▸ selectClaimable_ne_nil hrow hclaimable)
    obtain ⟨hstored, hfree⟩ := mem_selectClaimable (hevents ▸ hf)
    rw [List.length_filter_lt_length_iff_exists]
    exact ⟨f.id, rest_of_idle h hp hstored hfree, by simpa using ⟨f, hf, rfl⟩⟩
  have hbatch : events.length ≤ env.outboxBatchSize := by
    rw [← hevents, selectClaimable]
    exact List.length_take_le _ _
  refine nearsPublishing_of_step hstep trivial
    (publishing_claimed h hnot hp hevents (reach_step h.reach hstep)) ?_
  rw [claimedBy_publisher, Publisher.batchSteps, List.length_map]
  nlinarith

end idle

theorem Publishing.move {x : Publisher} (h : Publishing env s₀ p id e deadline rest s)
    (hreach : (machine env).Reach Machine.Always s') (hnow : s'.now = s.now)
    (hworkers : s'.workers = s.workers) (hstore : s'.store = s.store) (hx : s'.publishers p = x)
    (hcurrent : x.Current s.store.outbox) (hunsettled : x.unsettled = (s.publishers p).unsettled)
    (htarget : s.Queued e ∨ (∃ c ∈ (s.publishers p).claims, c.id = e) →
      s'.Queued e ∨ ∃ c ∈ x.claims, c.id = e) :
    Publishing env s₀ p id e deadline rest s' where
  reach := hreach
  now := hnow.trans h.now
  workers := hworkers.trans h.workers
  notifications := by rw [hstore, h.notifications]
  current := by rwa [hx, hstore]
  moves := by
    rw [hstore]
    exact h.moves
  waiting := by
    rw [hx, hstore, hnow, hunsettled]
    exact h.waiting
  target := by
    rw [hx, hstore, hnow, hunsettled]
    rcases h.target with hq | hc | hrow
    · exact (htarget (.inl hq)).imp_right .inl
    · exact (htarget (.inr hc)).imp_right .inl
    · exact .inr (.inr hrow)

theorem publishing_working (h : Publishing env s₀ p id e deadline rest s)
    (hp : s.publishers p = .working (c :: todo)) :
    NearsPublishing env s₀ p id e deadline
      ((3 * env.outboxBatchSize + 2) * rest.length + (3 * (todo.length + 1) + 1)) s := by
  have hcur := h.current
  rw [hp] at hcur
  obtain ⟨row, hrow, hid, hstatus⟩ := hcur.claims c List.mem_cons_self
  have hget : s.store.outbox.get c.id = some row := Table.get_eq_some.2 ⟨hrow, hid⟩
  have hstep : step env s (.publisher p .load) =
      some (s.setPublisher p (.loaded c row todo)) := by
    simp [step, publisherStep, hp, hget]
  have hx : (s.setPublisher p (.loaded c row todo)).publishers p = .loaded c row todo := by
    simp [State.setPublisher]
  refine nearsPublishing_of_step hstep trivial (h.move (reach_step h.reach hstep) rfl rfl rfl hx
    (current_loaded hcur hrow hid hstatus) ?_ ?_) ?_
  · rw [hp]
    show row.id :: _ = c.id :: _
    rw [hid]
  · rw [hp]
    exact fun htarget => htarget
  · rw [hx, Publisher.batchSteps]
    omega

theorem publishing_loaded (h : Publishing env s₀ p id e deadline rest s)
    (hp : s.publishers p = .loaded c row todo) :
    NearsPublishing env s₀ p id e deadline
      ((3 * env.outboxBatchSize + 2) * rest.length + (3 * todo.length + 3)) s := by
  have hcur := h.current
  rw [hp] at hcur
  -- the claim was made for a row of the outbox, and that row can be routed
  have hclaims : c ∈ (s.publishers p).claims := by
    rw [hp]
    exact List.mem_cons_self
  obtain ⟨f, hf, hfid, hftype, hfpayload, -⟩ := (traced_reach h.reach).claims p c hclaims
  obtain ⟨hsupported, n, -, hnames⟩ := (addressed_reach h.reach).events f hf
  have hroute : publishOutboxEvent c.eventType c.payload =
      some (if f.eventType = .failed then .dlq else n.type.queue) := by
    have hrouted := publish_routed hnames hsupported
    rw [show f.payload = c.payload from hfpayload] at hrouted
    rw [← hrouted, show c.eventType = f.eventType from hftype.symm]
  generalize hqueue : (if f.eventType = .failed then QueueName.dlq else n.type.queue) = q at hroute
  let s' : State := { s.setPublisher p (.published row todo) with
    broker := s.broker.push q c.message
    publishes := s.publishes ++ [⟨c.id, s.now, false⟩] }
  have hstep : step env s (.publisher p .publish) = some s' := by
    simp [s', step, publisherStep, hp, hroute]
  have hx : s'.publishers p = .published row todo := by simp [s', State.setPublisher]
  refine nearsPublishing_of_step hstep trivial (h.move (reach_step h.reach hstep) rfl rfl rfl hx
    (current_published hcur) ?_ ?_) ?_
  · rw [hp]
    rfl
  · rintro (⟨m, r, hm, hr, hmem⟩ | ⟨k, hk, hkid⟩)
    · exact .inl ⟨m, r, hm, hr, Broker.mem_push.2 (.inl hmem)⟩
    · rw [hp] at hk
      rcases List.mem_cons.1 hk with rfl | hk
      · left
        refine ⟨k.message, q, hkid, ?_, Broker.mem_push.2 (.inr ⟨rfl, rfl⟩)⟩
        have hmoves := h.moves f hf (hfid.trans hkid)
        have hmain : publishOutboxEvent k.eventType k.payload =
            exchangeBinding k.payload.routingKey := by
          rw [show k.eventType = f.eventType from hftype.symm]
          rcases hmoves.2 with ht | ht <;> rw [ht] <;> rfl
        exact exchangeBinding_ne_dlq (hmain.symm.trans hroute)
      · exact .inr ⟨k, hk, hkid⟩
  · rw [hx, Publisher.batchSteps]
    omega

theorem publishing_published (h : Publishing env s₀ p id e deadline rest s)
    (hp : s.publishers p = .published row todo) :
    NearsPublishing env s₀ p id e deadline
      ((3 * env.outboxBatchSize + 2) * rest.length + (3 * todo.length + 2)) s := by
  have hcur := h.current
  rw [hp] at hcur
  obtain ⟨hrow, -⟩ := hcur.row row rfl
  have hnd : row.id ∉ todo.map (·.id) ∧ (todo.map (·.id)).Nodup := List.nodup_cons.1 hcur.nodup
  have hne : ∀ k ∈ todo, k.id ≠ row.id := fun k hk heq =>
    hnd.1 (heq ▸ List.mem_map_of_mem hk)
  let s' : State := { s.setPublisher p (.working todo) with
    now := s.now
    store := s.store.saveOutboxEvent row (row.markPublished s.now) }
  have hstep : step env s (.publisher p (.record s.now)) = some s' := by
    simp [s', step, publisherStep, hp]
  have hx : s'.publishers p = .working todo := by simp [s', State.setPublisher]
  have hnext : Publishing env s₀ p id e deadline rest s' := by
    constructor
    case reach => exact reach_step h.reach hstep
    case now => exact h.now
    case workers => exact h.workers
    case notifications => exact h.notifications
    case current =>
      rw [hx]
      refine current_working hnd.2 fun k hk => ?_
      obtain ⟨f, hf, hid, hstatus⟩ := hcur.claims k hk
      exact ⟨f, saveOutboxEvent_keeps hf (hid ▸ hne k hk), hid, hstatus⟩
    case moves =>
      intro f' hf' hid
      obtain ⟨f, hf, heq⟩ := mem_saved_asWritten hf'
      exact (h.moves f hf ((asWritten_id heq).symm.trans hid)).of_asWritten heq
    case waiting =>
      intro f' hf' hclaimable
      obtain ⟨f, hf, rfl⟩ := mem_saveOutboxEvent.1 hf'
      by_cases hid : f.id = row.id
      · obtain rfl := Table.eq_of_key hf hrow hid
        rw [if_pos rfl, writeBack_markPublished] at hclaimable
        simp [OutboxEvent.claimable, OutboxEvent.markPublished] at hclaimable
      · rw [if_neg hid] at hclaimable ⊢
        have hor := h.waiting f hf hclaimable
        rw [hp] at hor
        rw [hx]
        exact hor.imp_right fun hmem => (List.mem_cons.1 hmem).resolve_left hid
    case target =>
      rw [hx]
      have hor := h.target
      rw [hp] at hor
      rcases hor with ⟨m, q, hm, hq, hmem⟩ | hc | ⟨f, hf, hid, hclaimable, hnot⟩
      · exact .inl ⟨m, q, hm, hq, hmem⟩
      · exact .inr (.inl hc)
      · have hother := not_or.1 (mt List.mem_cons.2 hnot)
        exact .inr (.inr ⟨f, saveOutboxEvent_keeps hf (hid ▸ hother.1), hid, hclaimable,
          hother.2⟩)
  refine nearsPublishing_of_step hstep trivial hnext ?_
  rw [hx, Publisher.batchSteps]
  omega

theorem publishing_done (h : Publishing env s₀ p id e deadline rest s)
    (hp : s.publishers p = .working []) :
    NearsPublishing env s₀ p id e deadline ((3 * env.outboxBatchSize + 2) * rest.length + 1) s := by
  have hstep : step env s (.publisher p .done) = some (s.setPublisher p .idle) := by
    simp [step, publisherStep, hp]
  have hx : (s.setPublisher p .idle).publishers p = .idle := by simp [State.setPublisher]
  refine nearsPublishing_of_step hstep trivial
    (h.move (reach_step h.reach hstep) rfl rfl rfl hx current_idle ?_ ?_) ?_
  · rw [hp]
    rfl
  · rw [hp]
    exact fun htarget => htarget
  · rw [hx]
    exact Nat.lt_succ_self _

end publishing

/-- **Progress of a publisher.** Short of the message of `e` it has a step that brings it nearer. -/
theorem nearsPublishing
    (hdeadline : addSeconds s₀.now (-env.outboxClaimTimeoutSeconds) = some deadline) (k : Nat)
    (s : State) (h : PublishesIn env s₀ p id e deadline k s) (hnot : ¬ s.Queued e) :
    NearsPublishing env s₀ p id e deadline k s := by
  obtain ⟨rest, h, rfl⟩ := h
  cases hp : s.publishers p with
  | idle => exact publishing_idle h hnot hp hdeadline
  | working todo =>
    cases todo with
    | nil => exact publishing_done h hp
    | cons c todo => exact publishing_working h hp
  | loaded c row todo => exact publishing_loaded h hp
  | published row todo => exact publishing_published h hp
  | raised row error todo => exact absurd hp (h.current.calls row error todo)

/-- An event that can be claimed now gets its message in a work queue, while workers and
notifications stay as they are. -/
theorem published_smoothly (h : (machine env).Reach Machine.Always s)
    (hdeadline : addSeconds s.now (-env.outboxClaimTimeoutSeconds) = some deadline)
    {row : OutboxEvent} (hrow : row ∈ s.store.outbox) (hmoves : row.Moves id)
    (hclaimable : row.claimable s.now deadline = true) :
    ∃ as s', SmoothRun env s as s' ∧ (machine env).Reach Machine.Always s' ∧ s'.now = s.now ∧
      s'.store.notifications = s.store.notifications ∧
      ∃ m q, q ≠ .dlq ∧ m ∈ s'.broker.queues q ∧ m.payload.notificationId = id := by
  obtain ⟨p, -, hp⟩ := exists_idle h
  have hstart : Publishing env s p id row.id deadline (s.store.outbox.rows.map (·.id)) s := by
    constructor
    case reach => exact h
    case now => rfl
    case workers => rfl
    case notifications => rfl
    case current =>
      rw [hp]
      exact current_idle
    case moves =>
      intro f hf hid
      exact Table.eq_of_key hrow hf hid.symm ▸ hmoves
    case waiting => exact fun f hf _ => .inl (List.mem_map_of_mem hf)
    case target =>
      rw [hp]
      exact .inr (.inr ⟨row, hrow, rfl, hclaimable, List.not_mem_nil⟩)
  obtain ⟨as, s', _, hrun, ⟨_, hend, -⟩, m, q, hevent, hq, hm⟩ :=
    Machine.Run.exists_of_variant (nearsPublishing (p := p) (e := row.id) hdeadline)
      ⟨_, hstart, rfl⟩
  refine ⟨as, s', hrun, hend.reach, hend.now, hend.notifications, m, q, hq, hm, ?_⟩
  have ht := traced_reach hend.reach
  obtain ⟨f, hf, hid, -, hpayload, -⟩ := ht.known m (.inl ⟨q, hm⟩)
  rw [← hpayload, ht.aggregate f hf, (hend.moves f hf (hid.trans hevent)).1]

/-! ## The end of a notification -/

theorem tick_ends (hle : s.now ≤ T) (h : CanEnd env { s with now := T } id) : CanEnd env s id :=
  .of_step (a := .tick T) (by simp [step, hle]) trivial h

theorem unlocked_by (h : ∀ l, n.processingLockUntil = some l → l ≤ T) :
    n.hasActiveProcessingLock T = false := by
  unfold Notification.hasActiveProcessingLock
  cases hl : n.processingLockUntil with
  | none => simp
  | some l => simp [h l hl]

/-- At time `t` the clock can be computed with: a claim has its deadline and a reservation its
lock. -/
def ClockRuns (env : Deployment) (t : Time) : Prop :=
  (addSeconds t (-env.outboxClaimTimeoutSeconds)).isSome = true ∧
    (addSeconds t env.processingLockTtlSeconds).isSome = true

/-- An event that can be claimed by time `T` ends its notification, when the lock has ended by
then. -/
theorem claimable_ends (h : (machine env).Reach Machine.Always s) (hle : s.now ≤ T)
    (hclock : ClockRuns env T) (hn : s.store.notifications.get id = some n)
    (hlock : ∀ l, n.processingLockUntil = some l → l ≤ T) {row : OutboxEvent}
    (hrow : row ∈ s.store.outbox) (hmoves : row.Moves id)
    (hclaimable : ∀ deadline, addSeconds T (-env.outboxClaimTimeoutSeconds) = some deadline →
      row.claimable T deadline = true) : CanEnd env s id := by
  obtain ⟨deadline, hdeadline⟩ := Option.isSome_iff_exists.1 hclock.1
  have htick : step env s (.tick T) = some { s with now := T } := by simp [step, hle]
  obtain ⟨as, s', hrun, hreach, hnow, hsame, m, q, hq, hm, hid⟩ :=
    published_smoothly (reach_step h htick) hdeadline hrow hmoves (hclaimable deadline hdeadline)
  have hn' : s'.store.notifications.get id = some n := by rw [hsame, hn]
  refine tick_ends hle (.of_run hrun (queued_ends hreach hq hm hid hn' ?_ ?_))
  · rw [hnow]
    exact unlocked_by hlock
  · rw [hnow]
    exact hclock.2

theorem lock_awaitingRetry {loaded stored : Notification} {result : ProviderResult}
    {lockUntil l : Time} (h : (Notification.writeBack loaded
      (loaded.awaitingRetry result lockUntil) stored).processingLockUntil = some l) :
    stored.processingLockUntil = some l ∨ l = lockUntil := by
  have hor := @writeColumn_eq_or _ _ loaded.processingLockUntil (some lockUntil)
    stored.processingLockUntil
  simp only [Notification.writeBack, Notification.awaitingRetry] at h
  rcases hor with heq | heq
  · exact .inl (heq.symm.trans h)
  · exact .inr (Option.some.inj (heq.symm.trans h)).symm

/-- The apply of this answer raises at time `t`: a column cannot hold it, or there is no lock for
the retry. -/
def ApplyRaises (cfg : Settings) (loaded : Notification) (result : ProviderResult) (t : Time) :
    Prop :=
  result.storable = false ∨ cfg.RetryRaises loaded.attempts result t

theorem applies_of_not_raises {cfg : Settings} {st : Store} {loaded : Notification}
    {result : ProviderResult} {t : Time} {ids : EventIds} (payload : Payload)
    (hn : st.notifications.get id = some n) (hids : st.Fresh [ids.eventId, ids.rowId])
    (hnot : ¬ ApplyRaises cfg loaded result t) :
    ∃ st', apply cfg st id payload loaded result t t ids = .ok st' := by
  obtain ⟨hfits, hretry⟩ := not_or.1 hnot
  refine apply_total payload t hn (rowId_fresh hids) (fun e hdel he => hretry ?_)
    (by simpa using hfits)
  exact raises_of_retryUntil hdel he

/-- Whatever the provider has answered, the notification ends now, or the retry brings it to its
end, unless the answer cannot be applied. -/
theorem responded_ends (h : (machine env).Reach Machine.Always s) {loaded : Notification}
    {result : ProviderResult} (hw : s.workers w = .responded d loaded result)
    (hnot : ¬ ApplyRaises env.toSettings loaded result s.now)
    (hid : d.message.payload.notificationId = id)
    (hn : s.store.notifications.get id = some n) (hopen : loaded.isFinal = false)
    (hkey : loaded.id = id) (hlock : ∀ l, n.processingLockUntil = some l → l ≤ s.now)
    (hdelays : ∀ delay ∈ env.retryBackoffList, s.now + delay * 1000000 ≤ T) (hle : s.now ≤ T)
    (hlater : ClockRuns env T) : CanEnd env s id := by
  subst hkey
  obtain ⟨ids, hids⟩ := exists_fresh s.store
  obtain ⟨st, happ⟩ := applies_of_not_raises d.message.payload hn hids hnot
  have hstep : step env s (.worker w (.apply s.now s.now ids)) =
      some (afterApply s w d s.now (.ok st)) := by
    simp [step, workerStep, hw, hids, hid, happ]
  cases apply_ok happ with
  | guarded hfinal => cases hopen.symm.trans hfinal
  | delivered _ hres hfits => exact delivered_ends hw hopen hres hfits hid ⟨n, hn⟩
  | @dropped outbox _ _ _ _ =>
    refine ⟨_, _, SmoothRun.of_step hstep trivial,
      Notification.writeBack loaded (loaded.droppedByResult result) n, ?_, ?_⟩
    · rw [afterApply_store]
      show (s.store.saveNotification loaded _).notifications.get loaded.id = _
      rw [get_saveNotification, if_pos rfl, hn, Option.map_some]
    · have hne : (loaded.droppedByResult result).status ≠ loaded.status := by
        intro heq
        simp [Notification.isFinal, ← heq, Notification.droppedByResult] at hopen
      simp only [Notification.isFinal, Notification.writeBack, writeColumn_of_ne hne]
      simp [Notification.droppedByResult]
  | @retried delay lockUntil outbox _ _ hretry hins =>
    obtain ⟨-, hdecide, hadd⟩ := retryUntil_eq_some hretry
    have hlockUntil : lockUntil ≤ T := by
      rw [addSeconds_eq_some hadd]
      exact hdelays delay (mem_backoff_of_decide hdecide)
    have hrow := (Table.mem_insert? hins).2 (.inr rfl)
    refine .of_step hstep trivial (claimable_ends (reach_step h hstep) hle hlater
      (n := Notification.writeBack loaded (loaded.awaitingRetry result lockUntil) n) ?_ ?_
      hrow ⟨rfl, .inr rfl⟩ ?_)
    · rw [afterApply_store]
      show (s.store.saveNotification loaded _).notifications.get loaded.id = _
      rw [get_saveNotification, if_pos rfl, hn, Option.map_some]
    · intro l hl
      rcases lock_awaitingRetry hl with hold | rfl
      · exact (hlock l hold).trans hle
      · exact hlockUntil
    · intro deadline _
      refine claimable_of_pending rfl fun a ha => ?_
      cases ha
      exact hlockUntil

/-- Far enough from the last `datetime`: by time `t` everything that the notification waits for is
due, and by time `T` a retry that is scheduled at `t`. -/
structure Headroom (env : Deployment) (s : State) (id : Uuid) (t T : Time) : Prop where
  now : s.now ≤ t
  lock : ∀ n l, s.store.notifications.get id = some n → n.processingLockUntil = some l → l ≤ t
  available : ∀ e ∈ s.store.outbox, e.aggregateId = id → ∀ a, e.availableAt = some a → a ≤ t
  claims : ∀ e ∈ s.store.outbox, e.aggregateId = id → ∀ l, e.lockedAt = some l →
    l + env.outboxClaimTimeoutSeconds * 1000000 < t
  delays : ∀ delay ∈ env.retryBackoffList, t + delay * 1000000 ≤ T
  le : t ≤ T
  runs : ClockRuns env t
  later : ClockRuns env T

/-- An event of the notification is claimed and has no time in `locked_at`. -/
def State.HasUntimedClaim (s : State) (id : Uuid) : Prop :=
  ∃ e ∈ s.store.outbox, e.aggregateId = id ∧ e.status = .processing ∧ e.lockedAt = none

/-- A worker holds a message of the notification that it has to return: its processing has raised,
or its answer cannot be applied at time `t`. -/
def State.HasRaising (env : Deployment) (s : State) (id : Uuid) (t : Time) : Prop :=
  ∃ w d, (s.workers w).delivery? = some d ∧ d.live = true ∧
    d.message.payload.notificationId = id ∧
      (s.workers w = .failing d ∨ ∃ loaded result, s.workers w = .responded d loaded result ∧
        ApplyRaises env.toSettings loaded result t)

theorem live_event_ends {t : Time} (h : (machine env).Reach Machine.Always s)
    (hroom : Headroom env s id t T) (hn : s.store.notifications.get id = some n)
    {row : OutboxEvent} (hrow : row ∈ s.store.outbox) (hmoves : row.Moves id)
    (hlive : row.status = .pending ∨ row.status = .processing ∧ row.lockedAt ≠ none) :
    CanEnd env s id := by
  refine claimable_ends h hroom.now hroom.runs hn (hroom.lock n · hn) hrow hmoves ?_
  intro deadline hdeadline
  rcases hlive with hpending | ⟨hprocessing, hlocked⟩
  · exact claimable_of_pending hpending (hroom.available row hrow hmoves.1)
  · obtain ⟨l, hl⟩ := Option.ne_none_iff_exists'.1 hlocked
    have hlate := hroom.claims row hrow hmoves.1 l hl
    have hd := addSeconds_eq_some hdeadline
    have hlt : l < deadline := by
      rw [hd]
      linarith
    simp [OutboxEvent.claimable, hprocessing, hl, hlt]

/-- A delivery that is not acked yet ends its notification, unless its worker has to return it. -/
theorem delivery_ends {t : Time} (h : (machine env).Reach Machine.Always s)
    (hroom : Headroom env s id t T) (hn : s.store.notifications.get id = some n)
    (hw : (s.workers w).delivery? = some d) (hlive : d.live = true)
    (hid : d.message.payload.notificationId = id) (hnot : d.message ∉ s.processed) :
    s.HasRaising env id t ∨ CanEnd env s id := by
  have htick : step env s (.tick t) = some { s with now := t } := by simp [step, hroom.now]
  have hreach := reach_step h htick
  have hlock := fun l => hroom.lock n l hn
  -- an attempt in flight is of this notification, which it has left `sent`
  have hflight : ∀ f, (s.workers w).flight? = some f → f.payload = d.message.payload →
      f.loaded.id = id ∧ f.loaded.isFinal = false := by
    intro f hf hpayload
    have hkey : f.loaded.id = id := by
      rw [((referenced_reach h).flights w f hf).1, hpayload, hid]
    obtain ⟨hsent, -⟩ := (sound_reach h id).flights w f (flightOf_eq_some.2 ⟨hf, hkey⟩)
    exact ⟨hkey, by simp [Notification.isFinal, hsent]⟩
  cases hx : s.workers w with
  | idle => simp [hx, Worker.delivery?] at hw
  | received d' =>
    rw [hx] at hw
    cases hw
    exact .inr (tick_ends hroom.now (received_ends hx hid hn (unlocked_by hlock) hroom.runs.2))
  | reserved d' loaded =>
    rw [hx] at hw hflight
    cases hw
    obtain ⟨hkey, hopen⟩ := hflight _ rfl rfl
    subst hkey
    exact .inr (reserved_ends hx hopen hid ⟨n, hn⟩)
  | calling d' loaded =>
    rw [hx] at hw hflight
    cases hw
    obtain ⟨hkey, hopen⟩ := hflight _ rfl rfl
    subst hkey
    exact .inr (calling_ends hx hopen hid ⟨n, hn⟩)
  | responded d' loaded result =>
    by_cases hraises : ApplyRaises env.toSettings loaded result t
    · refine .inl ⟨w, d, hw, hlive, hid, .inr ⟨loaded, result, ?_, hraises⟩⟩
      rw [hx] at hw
      cases hw
      exact hx
    · rw [hx] at hw hflight
      cases hw
      obtain ⟨hkey, hopen⟩ := hflight _ rfl rfl
      exact .inr (tick_ends hroom.now (responded_ends hreach hx hraises hid hn hopen hkey hlock
        hroom.delays hroom.le hroom.later))
  | finished d' =>
    rw [hx] at hw
    cases hw
    exact absurd (logged_reach h w d hx) hnot
  | failing d' =>
    refine .inl ⟨w, d, hw, hlive, hid, .inl ?_⟩
    rw [hx] at hw
    cases hw
    exact hx

/-- **An open notification can end.** From every reachable state the workers, the publishers and
the clock can bring an open notification to its end without anything going wrong, unless one of
its events was given up or is claimed without a time, or one of its messages was dead-lettered or
has to be returned, which may dead-letter it. -/
theorem open_notification_can_end {t : Time} (h : (machine env).Reach Machine.Always s)
    (hn : s.store.notifications.get id = some n) (hopen : n.isFinal = false)
    (hroom : Headroom env s id t T) :
    s.HasFailedEvent id ∨ s.HasUntimedClaim id ∨ s.HasDeadLetter id ∨ s.HasRaising env id t ∨
      CanEnd env s id := by
  obtain rfl : n.id = id := Table.get_key hn
  obtain ⟨e, hmem, hagg, htype, hund⟩ := driven_reach h n (Table.mem_of_get hn) hopen
  have hmoves : e.Moves n.id := ⟨hagg, htype⟩
  cases hstatus : e.status with
  | pending =>
    exact .inr (.inr (.inr (.inr (live_event_ends h hroom hn hmem hmoves (.inl hstatus)))))
  | processing =>
    by_cases hlocked : e.lockedAt = none
    · exact .inr (.inl ⟨e, hmem, hagg, hstatus, hlocked⟩)
    · exact .inr (.inr (.inr (.inr
        (live_event_ends h hroom hn hmem hmoves (.inr ⟨hstatus, hlocked⟩)))))
  | failed => exact .inl ⟨e, hmem, hagg, hstatus⟩
  | published =>
    have ht := traced_reach h
    obtain ⟨m, hevent, hacc⟩ := (delivered_reach h).events e hmem hstatus
    have hid : m.payload.notificationId = n.id := by
      obtain ⟨f, hf, hfid, -, hpayload, -⟩ := ht.known m (known_of_accounted hacc)
      obtain rfl := Table.eq_of_key hf hmem (hfid.trans hevent)
      rw [← hpayload, ht.aggregate f hf, hagg]
    rcases hacc with (⟨q, hq⟩ | ⟨w, d, hw, hlive, rfl⟩) | hprocessed
    · by_cases hdlq : q = .dlq
      · exact .inr (.inr (.inl ⟨m, hdlq ▸ hq, hid⟩))
      · have htick : step env s (.tick t) = some { s with now := t } := by
          simp [step, hroom.now]
        exact .inr (.inr (.inr (.inr (tick_ends hroom.now (queued_ends (reach_step h htick) hdlq hq
          hid hn (unlocked_by fun l => hroom.lock n l hn) hroom.runs.2)))))
    · exact .inr (.inr (.inr (delivery_ends h hroom hn hw hlive hid fun hprocessed =>
        hund _ hprocessed hevent)))
    · exact absurd hevent (hund m hprocessed)

theorem worker_of_run {ok : State → Action → Prop} {as : List Action}
    (hrun : (machine env).Run ok s as s') (has : ∀ b, .worker w b ∉ as) :
    s'.workers w = s.workers w := by
  induction hrun with
  | nil => rfl
  | @snoc as t t' a _ _ hstep ih =>
    have hsame := ih fun b hb => has b (List.mem_append_left _ hb)
    rw [← hsame]
    rcases step_party hstep with ⟨v, b, rfl, hv⟩ | ⟨p, b, -, hp⟩ | hf
    · refine (workerStep_frame hv).workers w ?_
      rintro rfl
      exact has b (List.mem_append_right _ List.mem_cons_self)
    · rw [(publisherStep_frame hp).workers]
    · rw [hf.workers]

/-- A worker has crashed in an attempt, and its message is back in the queue. -/
theorem open_notification_can_end_crashed : ∃ (s : State) (n : Notification),
    s.store.notifications.get 1 = some n ∧ n.status = .sent ∧ n.hasActiveProcessingLock s.now ∧
      CanEnd Sample.env s 1 := by
  obtain ⟨s, hrun, hs⟩ := Machine.Run.exists_of_exec_always (machine Sample.env) (.initial 0)
    (Sample.attempt ++ [.worker 0 (.crash false)])
    (fun s => s.now = 0 && (s.store.notifications.get 1).any (fun n =>
        n.status = .sent && n.processingLockUntil = some (Sample.sec 60)) &&
      s.store.outbox.rows.all (fun e => e.status = .published && e.availableAt = none &&
        e.lockedAt = none) && s.broker.queues .dlq = [] && s.workers 0 = .idle) (by decide)
  simp only [Bool.and_eq_true, decide_eq_true_eq, Option.any_eq_true, List.all_eq_true] at hs
  obtain ⟨⟨⟨⟨hnow, n, hn, hsent, hlock⟩, hrows⟩, hdlq⟩, hfirst⟩ := hs
  have hidle (w : Nat) : s.workers w = .idle := by
    by_cases hw : w = 0
    · rw [hw, hfirst]
    · refine worker_of_run hrun fun b hb => ?_
      simp [Sample.attempt, Sample.creation, Sample.publication, hw] at hb
  have hroom : Headroom Sample.env s 1 (Sample.sec 60) (Sample.sec 120) := by
    refine ⟨by rw [hnow]; decide, fun m l hm hl => ?_, fun e he _ a ha => ?_,
      fun e he _ l hl => ?_, by decide, by decide, ⟨by decide, by decide⟩, ⟨by decide, by decide⟩⟩
    · obtain rfl := Option.some.inj (hn.symm.trans hm)
      exact (Option.some.inj (hlock.symm.trans hl)).ge
    · cases (hrows e he).1.2.symm.trans ha
    · cases (hrows e he).2.symm.trans hl
  refine ⟨s, n, hn, hsent, ?_, ?_⟩
  · rw [Notification.hasActiveProcessingLock, hsent, hlock, hnow]
    decide
  · rcases open_notification_can_end (.run (.init ⟨0, rfl⟩) hrun) hn
      (by simp [Notification.isFinal, hsent]) hroom with ⟨e, he, -, hfailed⟩ |
      ⟨e, he, -, hclaimed, -⟩ | ⟨m, hm, -⟩ | ⟨w, d, hw, -⟩ | hend
    · cases (hrows e he).1.1.symm.trans hfailed
    · cases (hrows e he).1.1.symm.trans hclaimed
    · rw [hdlq] at hm
      cases hm
    · rw [hidle w] at hw
      cases hw
    · exact hend

/-! ## Claims without a time -/

/-- The event is claimed without a time, and no publisher holds it. -/
def State.Stuck (s : State) (row : OutboxEvent) : Prop :=
  row ∈ s.store.outbox ∧ row.status = .processing ∧ row.lockedAt = none ∧
    ∀ p, row.id ∉ (s.publishers p).unsettled

theorem not_claimable_of_untimed {row : OutboxEvent} (hstatus : row.status = .processing)
    (hlocked : row.lockedAt = none) (now deadline : Time) : row.claimable now deadline = false := by
  simp [OutboxEvent.claimable, hstatus, hlocked]

theorem unsettled_step {a : Action} (h : step env s a = some s') {q : Nat}
    (hmem : e ∈ (s'.publishers q).unsettled) : e ∈ (s.publishers q).unsettled ∨
      ∃ f ∈ s.store.outbox, f.id = e ∧ ∃ now deadline, f.claimable now deadline = true := by
  rcases publishers_of_step h with ⟨hp, -⟩ | ⟨p, hp⟩
  · exact .inl (hp ▸ hmem)
  · by_cases hq : q = p
    · subst hq
      cases hp with
      | @claim t₁ t₃ deadline locked _ _ _ =>
        simp only [State.setPublisher, Function.update_self, Publisher.unsettled, List.mem_map,
          exists_exists_and_eq_and] at hmem
        obtain ⟨f, hf, hid⟩ := hmem
        exact .inr ⟨f, (mem_selectClaimable hf).1, hid, t₁, deadline, (mem_selectClaimable hf).2⟩
      | skip hx =>
        simp only [State.setPublisher, Function.update_self] at hmem
        rw [hx]
        exact .inl (List.mem_cons_of_mem _ hmem)
      | load hx hrow =>
        simp only [State.setPublisher, Function.update_self, Publisher.unsettled] at hmem
        rw [hx]
        rw [Table.get_key hrow] at hmem
        exact .inl hmem
      | publish hx | raise hx =>
        simp only [State.setPublisher, Function.update_self] at hmem
        rw [hx]
        exact .inl hmem
      | recordPublished hx | recordRaised hx =>
        simp only [State.setPublisher, Function.update_self] at hmem
        rw [hx]
        exact .inl (List.mem_cons_of_mem _ hmem)
      | stop => simp [State.setPublisher, Publisher.unsettled] at hmem
    · left
      cases hp <;> simpa [State.setPublisher, hq] using hmem

theorem stuck_step {a : Action} {row : OutboxEvent} (hr : Referenced s) (ht : Traced s)
    (hs : s.Stuck row) (h : step env s a = some s') : s'.Stuck row := by
  obtain ⟨hrow, hstatus, hlocked, hfree⟩ := hs
  have hnot := not_claimable_of_untimed hstatus hlocked
  refine ⟨?_, hstatus, hlocked, fun q hmem => ?_⟩
  · obtain ⟨row', hrow', heq, hle⟩ := (change_of_step h).extends.outbox hrow
    cases event_of_change hr (change_of_step h) hrow' with
    | kept hold => exact Table.eq_of_key hrow hold (asWritten_id heq).symm ▸ hrow'
    | new hnew =>
      have hzero : row.attempts = 0 := by
        have hnew' := hnew.attempts
        omega
      cases hstatus.symm.trans (ht.unclaimed row hrow hzero)
    | @claimed f now deadline t hf _ _ hclaimable =>
      obtain rfl := Table.eq_of_key hrow hf (asWritten_id heq).symm
      cases (hnot now deadline).symm.trans hclaimable
    | @published f r p t todo hf hp hid | @raised f r p error todo hf hp hid =>
      have hkey : row.id = r.id := (asWritten_id heq).symm.trans hid
      have hmem : row.id ∈ (s.publishers p).unsettled := by
        rw [hp, hkey]
        exact List.mem_cons_self
      exact absurd hmem (hfree p)
  · rcases unsettled_step h hmem with hold | ⟨f, hf, hid, now, deadline, hclaimable⟩
    · exact hfree q hold
    · obtain rfl := Table.eq_of_key hrow hf hid.symm
      cases (hnot now deadline).symm.trans hclaimable

/-- **A claim without a time is never taken over.** When no publisher holds its event any more, the
row stays as it is in every run, and the event is not published again. -/
theorem untimed_claim_stuck {as : List Action} {row : OutboxEvent}
    (h : (machine env).Reach Machine.Always s) (hs : s.Stuck row)
    (hrun : (machine env).Run Machine.Always s as s') :
    s'.Stuck row ∧ ∀ c ∈ s'.publishes, c.event = row.id → c ∈ s.publishes := by
  refine Machine.Run.induct (I := fun t => t.Stuck row ∧
    ∀ c ∈ t.publishes, c.event = row.id → c ∈ s.publishes) h ⟨hs, fun _ hc _ => hc⟩ ?_ hrun
  rintro t a t' hreach ⟨hstuck, hcalls⟩ - hstep
  refine ⟨stuck_step (referenced_reach hreach) (traced_reach hreach) hstuck hstep, ?_⟩
  intro c hc hevent
  rcases publishers_of_step hstep with ⟨-, hpub⟩ | ⟨p, hp⟩
  · exact hcalls c (hpub ▸ hc) hevent
  · rcases publisher_publishes hp hc with hold | ⟨k, r, todo, hload, hid, -⟩
    · exact hcalls c hold hevent
    · -- the publisher that publishes it would hold it
      have hkey : row.id = r.id :=
        hevent.symm.trans (hid.symm.trans ((traced_reach hreach).loaded p k r todo hload).symm)
      have hmem : row.id ∈ (t.publishers p).unsettled := by
        rw [hload, hkey]
        exact List.mem_cons_self
      exact absurd hmem (hstuck.2.2.2 p)

theorem publisher_of_run {ok : State → Action → Prop} {as : List Action}
    (hrun : (machine env).Run ok s as s') (has : ∀ b, .publisher p b ∉ as) :
    s'.publishers p = s.publishers p := by
  induction hrun with
  | nil => rfl
  | @snoc as t t' a _ _ hstep ih =>
    have hsame := ih fun b hb => has b (List.mem_append_left _ hb)
    rw [← hsame]
    rcases step_party hstep with ⟨w, b, -, hw⟩ | ⟨q, b, rfl, hq⟩ | hf
    · rw [(workerStep_frame hw).publishers]
    · refine (publisherStep_frame hq).publishers p ?_
      rintro rfl
      exact has b (List.mem_append_right _ List.mem_cons_self)
    · rw [hf.publishers]

/-- Publishers 1, 2 and 3 take the event over from each other while publisher 4 still has its
claim. The stale rows that 1 and 4 loaded make 4 write `locked_at` alone, over the claim of
publisher 5, which crashes. -/
def Sample.takeovers : List Action :=
  creation ++ [.publisher 4 (.claim 0 0 0 []),
    .publisher 1 (.claim (sec 301) (sec 301) (sec 301) []),
    .publisher 2 (.claim (sec 602) (sec 602) (sec 602) []), .publisher 2 .load,
    .publisher 2 (.publishRaises "" false), .publisher 2 (.record (sec 602)),
    .publisher 1 .load, .publisher 3 (.claim (sec 602) (sec 602) (sec 602) []),
    .publisher 1 .publish, .publisher 1 (.record (sec 602)), .publisher 4 .load,
    .publisher 3 .load, .publisher 3 (.publishRaises "" false), .publisher 3 (.record (sec 602)),
    .publisher 5 (.claim (sec 602) (sec 602) (sec 602) []), .publisher 4 .publish,
    .publisher 4 (.record (sec 602)), .publisher 5 .crash]

theorem untimed_claim_stuck_takeovers : ∃ (s : State) (row : OutboxEvent),
    (machine Sample.env).Reach Machine.Always s ∧ row ∈ s.store.outbox ∧
      row.eventType = .created ∧ ∀ as s', (machine Sample.env).Run Machine.Always s as s' →
        s'.Stuck row ∧ ∀ c ∈ s'.publishes, c.event = row.id → c ∈ s.publishes := by
  obtain ⟨s, hrun, hs⟩ := Machine.Run.exists_of_exec_always (machine Sample.env) (.initial 0)
    Sample.takeovers
    (fun s => (s.store.outbox.get 3).any (fun row => row.eventType = .created &&
        row.status = .processing && row.lockedAt = none) &&
      (List.range 6).all fun p => 3 ∉ (s.publishers p).unsettled) (by decide)
  simp only [Bool.and_eq_true, decide_eq_true_eq, Option.any_eq_true, List.all_eq_true,
    List.mem_range] at hs
  obtain ⟨⟨row, hrow, ⟨htype, hstatus⟩, hlocked⟩, hfree⟩ := hs
  have hid : row.id = 3 := Table.get_key hrow
  have hreach : (machine Sample.env).Reach Machine.Always s := .run (.init ⟨0, rfl⟩) hrun
  have hstuck : s.Stuck row := by
    refine ⟨Table.mem_of_get hrow, hstatus, hlocked, fun p => ?_⟩
    rw [hid]
    by_cases hp : p < 6
    · exact hfree p hp
    · have hsame : s.publishers p = .idle := by
        refine publisher_of_run hrun fun b hb => ?_
        simp only [Sample.takeovers, Sample.creation, List.mem_append, List.mem_cons,
          Action.publisher.injEq, reduceCtorEq, List.not_mem_nil, or_false, false_or] at hb
        omega
      rw [hsame]
      exact List.not_mem_nil
  exact ⟨s, row, hreach, hstuck.1, htype, fun as s' => untimed_claim_stuck hreach hstuck⟩

end NotificationSystem
