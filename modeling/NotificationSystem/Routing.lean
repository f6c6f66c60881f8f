import NotificationSystem.NoLoss

/-!
# Event identity and routing

A retry's payload is a copy of the consumed message's, a failed event's routing key comes from
there too, and three writers make events. By induction over these chains every payload names the
notification of its event, and the bindings lead every message to the queue of its type.

* `Addressed`, `addressed_reach` — the invariant of the events and the attempts in flight.
* `Sorted`, `sorted_reach` — the invariant of the queues and the deliveries.
* `events_routed` — what follows for publishers and workers.
-/

namespace NotificationSystem

open Lib

variable {env : Deployment} {s s' : State} {a : Action} {m : Message}

/-- What an event says about whose it is. -/
abbrev Address := Uuid × Uuid × Int × NotificationChannel × NotificationType

def Notification.address (n : Notification) : Address :=
  (n.id, n.batchId, n.subscriberId, n.channel, n.type)

def Payload.address (p : Payload) : Address :=
  (p.notificationId, p.batchId, p.subscriberId, p.channel, p.type)

/-- The payload is that of an event of `n`, and is routed by its type. -/
def Payload.Names (p : Payload) (n : Notification) : Prop :=
  p.address = n.address ∧ p.routingKey = routingKeyForNotificationType n.type

/-- The event types that `publish_outbox_event` accepts. -/
def EventType.Supported (t : EventType) : Prop := t = .created ∨ t = .retryScheduled ∨ t = .failed

/-- The queue of a notification's created and retry messages. -/
def NotificationType.queue : NotificationType → QueueName
  | .transactional => .high
  | .marketing => .low

/-! ## Routing -/

section routing

variable {p : Payload} {n n' : Notification}

theorem exchangeBinding_routingKey (t : NotificationType) :
    exchangeBinding (routingKeyForNotificationType t) = some t.queue := by
  cases t <;> decide

theorem Payload.Names.type (h : p.Names n) : p.type = n.type :=
  congrArg (fun x : Address => x.2.2.2.2) h.1

theorem Payload.Names.notificationId (h : p.Names n) : p.notificationId = n.id :=
  congrArg Prod.fst h.1

theorem Payload.Names.of_address (h : p.Names n) (heq : n'.address = n.address) : p.Names n' := by
  refine ⟨h.1.trans heq.symm, ?_⟩
  have htype : n'.type = n.type := congrArg (fun x : Address => x.2.2.2.2) heq
  rw [htype]
  exact h.2

/-- A payload that names its notification is routed by the notification's type. -/
theorem publish_routed {t : EventType} (h : p.Names n) (ht : t.Supported) :
    publishOutboxEvent t p = some (if t = .failed then .dlq else n.type.queue) := by
  have hmain : exchangeBinding p.routingKey = some n.type.queue := by
    rw [h.2]
    exact exchangeBinding_routingKey n.type
  rcases ht with rfl | rfl | rfl
  · exact hmain
  · exact hmain
  · rfl

theorem failedRoutingKey_names (h : p.Names n) :
    failedRoutingKey n' (some p) = routingKeyForNotificationType n.type := by
  have hne : routingKeyForNotificationType n.type ≠ "" := by cases n.type <;> decide
  rw [failedRoutingKey, h.2, if_pos hne]

end routing

/-! ## What the transactions write -/

/-- The notifications of `st` are in `st'` under the same address. -/
def Store.KeepsAddresses (st st' : Store) : Prop :=
  ∀ id n, st.notifications.get id = some n →
    ∃ n', st'.notifications.get id = some n' ∧ n'.address = n.address

/-- An event of a notification in `st`, which its payload names. -/
def Store.Names (st : Store) (e : OutboxEvent) : Prop :=
  e.eventType.Supported ∧ ∃ n, st.notifications.get e.aggregateId = some n ∧ e.payload.Names n

section stores

variable {cfg : Settings} {st st' : Store} {id : Uuid} {payload : Payload} {t₁ t₂ t₃ : Time}
  {ids : EventIds} {out : Option Notification} {loaded updated n : Notification}
  {result : ProviderResult}

theorem Store.KeepsAddresses.names (h : st.KeepsAddresses st') {e e' : OutboxEvent}
    (he : st.Names e) (hsame : e'.asWritten = e.asWritten) : st'.Names e' := by
  obtain ⟨htype, n, hget, hnames⟩ := he
  obtain ⟨n', hget', heq⟩ := h _ n hget
  refine ⟨asWritten_eventType hsame ▸ htype, n', ?_, ?_⟩
  · rw [asWritten_aggregateId hsame]
    exact hget'
  · rw [asWritten_payload hsame]
    exact hnames.of_address heq

/-- What has an address in `st` has it in `st'`. -/
theorem Store.KeepsAddresses.address (h : st.KeepsAddresses st') {address : Address}
    (hn : ∃ n, st.notifications.get id = some n ∧ address = n.address) :
    ∃ n, st'.notifications.get id = some n ∧ address = n.address := by
  obtain ⟨n, hget, haddr⟩ := hn
  obtain ⟨n', hget', heq⟩ := h id n hget
  exact ⟨n', hget', haddr.trans heq.symm⟩

/-- An address is made of columns that are never updated. -/
theorem Store.KeepsCreated.addresses (h : st.KeepsCreated st') : st.KeepsAddresses st' := by
  intro id n hn
  obtain ⟨n', hn', heq⟩ := h id n hn
  exact ⟨n', hn', show n'.asCreated.address = n.asCreated.address by rw [heq]⟩

theorem reserved_address (h : Reserved cfg st id payload t₁ t₂ t₃ ids st' out)
    (hout : out = some loaded) :
    ∃ n, st.notifications.get id = some n ∧ loaded.address = n.address := by
  cases h with
  | missing | final | covered | deferred | refused => cases hout
  | attempt hget =>
    cases hout
    exact ⟨_, hget, rfl⟩

theorem reserved_names (h : Reserved cfg st id payload t₁ t₂ t₃ ids st' out)
    (hp : ∀ n, st.notifications.get id = some n → payload.Names n) :
    ∀ e ∈ st'.outbox, e ∈ st.outbox ∨ st.Names e := by
  intro e he
  refine (reserved_adds h he).imp_right fun hadds => ?_
  cases hadds with
  | @deferred n hget =>
    have hn := Table.get_of_mem (Table.mem_of_get hget)
    exact ⟨.inr (.inl rfl), n, hn, (hp n hget).1, rfl⟩
  | @refused n hget =>
    have hn := Table.get_of_mem (Table.mem_of_get hget)
    exact ⟨.inr (.inr rfl), n, hn, rfl, rfl⟩

theorem applied_names (h : Applied cfg st id payload loaded result t₁ t₂ ids st')
    (hn : st.notifications.get loaded.id = some n) (haddr : loaded.address = n.address)
    (hp : payload.Names n) : ∀ e ∈ st'.outbox, e ∈ st.outbox ∨ st.Names e := by
  intro e he
  have htype : loaded.type = n.type := congrArg (fun x : Address => x.2.2.2.2) haddr
  refine (applied_adds h he).imp_right fun hadds => ?_
  cases hadds with
  | retried =>
    exact ⟨.inr (.inl rfl), n, hn, hp.1, congrArg routingKeyForNotificationType htype⟩
  | dropped => exact ⟨.inr (.inr rfl), n, hn, haddr, failedRoutingKey_names hp⟩

section commit

variable {request : BulkNotificationRequest} {key requestHash : String} {reservation : Reservation}
  {uuids : Nat → Uuid} {stamps : Nat → Time} {response : BulkNotificationResponse}

theorem commitBulk_names
    (h : commitBulk st request key requestHash reservation uuids stamps = .ok (st', response)) :
    ∀ e ∈ st'.outbox, e ∈ st.outbox ∨ st'.Names e := by
  intro e he
  refine (commitBulk_event h he).imp_right ?_
  rintro ⟨i, recipient, hmem, rfl⟩
  exact ⟨.inl rfl, _, commitBulk_get h hmem, rfl, rfl⟩

end commit

end stores

/-! ## The invariant of the events -/

/-- Every event names its notification, and so does every instance in flight. -/
structure Addressed (s : State) : Prop where
  events : ∀ e ∈ s.store.outbox, s.store.Names e
  flights : ∀ w f, (s.workers w).flight? = some f →
    ∃ n, s.store.notifications.get f.loaded.id = some n ∧ f.loaded.address = n.address

theorem addressed_initial (now : Time) : Addressed (State.initial now) where
  events _ h := absurd h Table.not_mem_empty
  flights _ _ h := by cases h

/-- A message names the notification of the event that it announces. -/
theorem names_of_known (ht : Traced s) (hs : Addressed s) (hm : s.Known m) :
    ∃ e ∈ s.store.outbox, e.id = m.event ∧ e.eventType = m.eventType ∧ e.payload = m.payload ∧
      ∃ n, s.store.notifications.get m.payload.notificationId = some n ∧ n.id = e.aggregateId ∧
        m.payload.Names n := by
  obtain ⟨e, he, hid, htype, hpayload, -⟩ := ht.known m hm
  obtain ⟨-, n, hget, hnames⟩ := hs.events e he
  have hn : n.id = e.aggregateId := Table.get_key hget
  refine ⟨e, he, hid, htype, hpayload, n, ?_, hn, hpayload ▸ hnames⟩
  rw [← hpayload, hnames.notificationId, hn]
  exact hget

theorem names_of_delivery (ht : Traced s) (hs : Addressed s) {w : Nat} {d : Delivery}
    (h : (s.workers w).delivery? = some d) {n : Notification}
    (hn : s.store.notifications.get d.message.payload.notificationId = some n) :
    d.message.payload.Names n := by
  obtain ⟨e, -, -, -, -, n', hget, -, hnames⟩ := names_of_known ht hs (known_of_delivery h)
  obtain rfl := Option.some.inj (hn.symm.trans hget)
  exact hnames

theorem addressed_of_keeps (hs : Addressed s) (hkeep : s.store.KeepsAddresses s'.store)
    (he : ∀ e' ∈ s'.store.outbox, (∃ e ∈ s.store.outbox, e'.asWritten = e.asWritten) ∨
      s.store.Names e')
    (hf : ∀ w f', (s'.workers w).flight? = some f' →
      ∃ f, (s.workers w).flight? = some f ∧ f'.loaded = f.loaded) : Addressed s' where
  events e' he' := by
    rcases he e' he' with ⟨e, hmem, hsame⟩ | hnames
    · exact hkeep.names (hs.events e hmem) hsame
    · exact hkeep.names hnames rfl
  flights w f' hf' := by
    obtain ⟨f, hw, hl⟩ := hf w f' hf'
    rw [hl]
    exact hkeep.address (hs.flights w f hw)

theorem addressed_reserve {cfg : Settings} {w : Nat} {d : Delivery} {t₁ t₂ t₃ : Time}
    {ids : EventIds} {st : Store} {out : Option Notification} (ht : Traced s) (hs : Addressed s)
    (hd : (s.workers w).delivery? = some d)
    (hres : Reserved cfg s.store d.message.payload.notificationId d.message.payload t₁ t₂ t₃ ids
      st out) : Addressed (afterReserve s w d t₃ (.ok (st, out))) := by
  have hkeep := (reserved_keepsCreated hres).addresses
  refine ⟨fun e he => ?_, fun v f hv => ?_⟩
  · rw [afterReserve_store] at he ⊢
    rcases reserved_names hres (fun n hn => names_of_delivery ht hs hd hn) e he with he | hnames
    · exact hkeep.names (hs.events e he) rfl
    · exact hkeep.names hnames rfl
  · rw [afterReserve_store]
    rw [afterReserve_flight] at hv
    split at hv
    · obtain ⟨loaded, rfl, rfl⟩ := Option.map_eq_some_iff.1 hv
      obtain ⟨n, hget, haddr⟩ := reserved_address hres rfl
      have hstored : n.id = d.message.payload.notificationId := Table.get_key hget
      have hid : loaded.id = d.message.payload.notificationId :=
        (congrArg Prod.fst haddr).trans hstored
      rw [hid]
      exact hkeep.address ⟨n, hget, haddr⟩
    · exact hkeep.address (hs.flights v f hv)

theorem addressed_step (hr : Referenced s) (ht : Traced s) (hs : Addressed s)
    (h : Change env s a s') : Addressed s' := by
  have same (w : Nat) (f : Flight) (hf : (s.workers w).flight? = some f) :
      ∃ g, (s.workers w).flight? = some g ∧ f.loaded = g.loaded := ⟨f, hf, rfl⟩
  have hkeep : s.store.KeepsAddresses s'.store := h.keepsCreated.addresses
  cases h with
  | quiet _ _ _ ho _ hf =>
    refine addressed_of_keeps hs hkeep (fun e he => .inl ⟨e, ho ▸ he, rfl⟩)
      fun w f' hf' => ?_
    obtain ⟨f, hw, hl, -⟩ := hf w f' hf'
    exact ⟨f, hw, hl⟩
  | @call w d n hw =>
    refine addressed_of_keeps hs hkeep (fun e he => .inl ⟨e, he, rfl⟩)
      fun v f hv => ?_
    simp only [calling_flight] at hv
    split at hv
    · next heq =>
      cases hv
      refine ⟨{ loaded := n, payload := d.message.payload }, ?_, rfl⟩
      rw [heq, hw]
      rfl
    · exact ⟨f, hv, rfl⟩
  | reserve hw _ _ _ _ hres =>
    exact addressed_reserve ht hs (by rw [hw]; rfl) hres
  | @apply w d n result t₁ t₂ ids st hw _ _ _ happ =>
    have hd : (s.workers w).delivery? = some d := by
      rw [hw]
      rfl
    have hflight := congrArg Worker.flight? hw
    obtain ⟨stored, hget, haddr⟩ := hs.flights w _ hflight
    have hid : n.id = d.message.payload.notificationId := (hr.flights w _ hflight).1
    have hnames := names_of_delivery ht hs hd (hid ▸ hget)
    refine addressed_of_keeps hs hkeep (fun e he => ?_) fun v f hv => ?_
    · exact (applied_names happ hget haddr hnames e he).imp_left fun he => ⟨e, he, rfl⟩
    · rw [afterApply_flight] at hv
      split at hv
      · cases hv
      · exact ⟨f, hv, rfl⟩
  | claim _ _ _ _ heq =>
    subst heq
    exact addressed_of_keeps hs hkeep
      (fun e he => .inl (mem_claimed_asWritten he)) same
  | recordPublished | recordRaised =>
    exact addressed_of_keeps hs hkeep
      (fun e he => .inl (mem_saved_asWritten he)) same
  | commit _ _ _ hcom =>
    refine ⟨fun e he => ?_, fun w f hf => hkeep.address (hs.flights w f hf)⟩
    rcases commitBulk_names hcom e he with he | hnames
    · exact hkeep.names (hs.events e he) rfl
    · exact hnames

theorem addressed_reach {ok : State → Action → Prop} (h : (machine env).Reach ok s) :
    Addressed s := by
  refine Machine.Reach.induct ?_ (fun t a t' hreach ht _ hstep => ?_) h
  · rintro _ ⟨now, rfl⟩
    exact addressed_initial now
  · exact addressed_step (referenced_reach hreach) (traced_reach hreach) ht (change_of_step hstep)

/-! ## The invariant of the queues -/

/-- The main queues and the workers hold created and retry messages, each in the queue of its
type. -/
structure Sorted (s : State) : Prop where
  queues : ∀ q, q ≠ .dlq → ∀ m ∈ s.broker.queues q,
    m.eventType ≠ .failed ∧ q = m.payload.type.queue
  deliveries : ∀ w d, (s.workers w).delivery? = some d →
    d.message.eventType ≠ .failed ∧ d.queue = d.message.payload.type.queue

theorem sorted_initial (now : Time) : Sorted (State.initial now) where
  queues _ _ _ h := by cases h
  deliveries _ _ h := by cases h

theorem get_main_queue {w : Nat} {b : WorkerAction} {d : Delivery}
    (h : workerStep env s w b = some s') (hnone : (s.workers w).delivery? = none)
    (hd : (s'.workers w).delivery? = some d) : d.queue ≠ .dlq := by
  have hchange := workerStep_cases h
  cases hchange with
  | get hw hmem =>
    simp only [workerStep, hw] at h
    split at h
    · next hc =>
      simp only [setWorker_self] at hd
      cases hd
      exact hc.1
    · cases h
  | reserve hw | reserveRaises hw | send hw | answer hw | sendRaises hw | apply hw
  | applyRaises hw | ack hw | reject hw =>
    rw [hw] at hnone
    cases hnone
  | crash hold | disconnect hold =>
    rw [hold] at hnone
    cases hnone

theorem sorted_worker {w : Nat} {b : WorkerAction} (hs : Sorted s)
    (h : workerStep env s w b = some s') : Sorted s' := by
  have hothers := (workerStep_frame h).workers
  have others {v : Nat} {d : Delivery} (hv : v ≠ w) (hd : (s'.workers v).delivery? = some d) :
      d.message.eventType ≠ .failed ∧ d.queue = d.message.payload.type.queue :=
    hs.deliveries v d (hothers v hv ▸ hd)
  cases workerStep_delivery h with
  | @get q m hnone hmem hdel hb =>
    have hmain : q ≠ .dlq := get_main_queue h hnone hdel
    refine ⟨fun p hp x hx => hs.queues p hp x (Broker.mem_of_mem_take (hb ▸ hx)), fun v d hd => ?_⟩
    by_cases hv : v = w
    · subst hv
      cases hdel.symm.trans hd
      exact hs.queues q hmain m hmem
    · exact others hv hd
  | @keep d hold hnew hb =>
    refine ⟨fun p hp x hx => hs.queues p hp x (hb ▸ hx), fun v e he => ?_⟩
    by_cases hv : v = w
    · subst hv
      cases hnew.symm.trans he
      exact hs.deliveries v d hold
    · exact others hv he
  | @ack d _ hnew hb =>
    refine ⟨fun p hp x hx => hs.queues p hp x (hb ▸ hx), fun v e he => ?_⟩
    by_cases hv : v = w
    · subst hv
      rw [hnew] at he
      cases he
    · exact others hv he
  | @giveBack d dead hold hnew hb =>
    obtain ⟨htype, hqueue⟩ := hs.deliveries w d hold
    refine ⟨fun p hp x hx => ?_, fun v e he => ?_⟩
    · rw [hb, Delivery.giveBack, Broker.giveBack] at hx
      split at hx
      · rcases Broker.mem_push.1 hx with hx | ⟨hq, rfl⟩
        · exact hs.queues p hp x hx
        · -- a message that is not dead-lettered goes back to its queue
          split at hq
          · exact absurd hq hp
          · exact ⟨htype, hq.trans hqueue⟩
      · exact hs.queues p hp x hx
    · by_cases hv : v = w
      · subst hv
        rcases hnew with hnew | hnew <;> rw [hnew] at he <;> cases he
        exact ⟨htype, hqueue⟩
      · exact others hv he

theorem sorted_step (ht : Traced s) (ha : Addressed s) (hs : Sorted s)
    (h : step env s a = some s') : Sorted s' := by
  rcases step_party h with ⟨w, b, -, hw⟩ | ⟨p, b, -, hp⟩ | hf
  · exact sorted_worker hs hw
  · have hframe := publisherStep_frame hp
    refine ⟨fun q hq m hm => ?_, fun w d hd => hs.deliveries w d (hframe.workers ▸ hd)⟩
    rcases publisher_push (publisherStep_cases hp) with
      hb | ⟨e, row, todo, queue, hload, hroute, hb⟩
    · exact hs.queues q hq m (hb ▸ hm)
    · rcases Broker.mem_push.1 (hb ▸ hm) with hm | ⟨rfl, rfl⟩
      · exact hs.queues q hq m hm
      · -- the event that the publisher has loaded names its notification
        obtain ⟨f, hf, -, htype, hpayload, -⟩ :=
          ht.claims p e (by rw [hload]; exact List.mem_cons_self)
        obtain ⟨hsupported, n, -, hnames⟩ := ha.events f hf
        rw [htype] at hsupported
        rw [hpayload] at hnames
        have hrouted := hroute.symm.trans (publish_routed hnames hsupported)
        show e.eventType ≠ .failed ∧ q = e.payload.type.queue
        by_cases hfailed : e.eventType = .failed
        · rw [if_pos hfailed] at hrouted
          exact absurd (Option.some.inj hrouted) hq
        · rw [if_neg hfailed] at hrouted
          exact ⟨hfailed, (Option.some.inj hrouted).trans
            (congrArg NotificationType.queue hnames.type.symm)⟩
  · exact ⟨fun q hq m hm => hs.queues q hq m (hf.broker ▸ hm),
      fun w d hd => hs.deliveries w d (hf.workers ▸ hd)⟩

theorem sorted_reach {ok : State → Action → Prop} (h : (machine env).Reach ok s) : Sorted s := by
  refine Machine.Reach.induct ?_ (fun t a t' hreach ht _ hstep => ?_) h
  · rintro _ ⟨now, rfl⟩
    exact sorted_initial now
  · exact sorted_step (traced_reach hreach) (addressed_reach hreach) ht hstep

/-! ## The theorem -/

/-- Whose an event is and where it goes, from its writing to the worker that reserves on it. -/
structure EventsRouted (env : Deployment) (s : State) : Prop where
  identity : ∀ e ∈ s.store.outbox, ∃ n, s.store.notifications.get e.aggregateId = some n ∧
    e.payload.notificationId = e.aggregateId ∧ e.payload.batchId = n.batchId ∧
      e.payload.subscriberId = n.subscriberId ∧ e.payload.channel = n.channel ∧
        e.payload.type = n.type ∧ e.payload.routingKey = routingKeyForNotificationType n.type
  published : ∀ e ∈ s.store.outbox, e.eventType.Supported ∧
    publishOutboxEvent e.eventType e.payload =
      some (if e.eventType = .failed then .dlq else e.payload.type.queue)
  queued : ∀ q, q ≠ .dlq → ∀ m ∈ s.broker.queues q, m.eventType ≠ .failed ∧
    q = m.payload.type.queue ∧
      ∃ e ∈ s.store.outbox, e.id = m.event ∧ e.eventType = m.eventType ∧ e.payload = m.payload
  reserved : ∀ w d, s.workers w = .received d → ∃ e ∈ s.store.outbox, e.id = d.message.event ∧
    e.eventType = d.message.eventType ∧ e.eventType ≠ .failed ∧ e.payload = d.message.payload ∧
      (∃ n, s.store.notifications.get d.message.payload.notificationId = some n ∧
        n.id = e.aggregateId ∧
        ∀ t₁ t₂ t₃ lockUntil ids, n.isFinal = false → n.hasActiveProcessingLock t₁ = false →
          n.attempts < env.maxRetries →
          addSeconds t₂ env.processingLockTtlSeconds = some lockUntil →
          ∃ st, reserve env.toSettings s.store d.message.payload.notificationId d.message.payload
            t₁ t₂ t₃ ids = .ok (st, some (n.reserved lockUntil))) ∧
      ∀ t₁ t₂ t₃ ids st out,
        reserve env.toSettings s.store d.message.payload.notificationId d.message.payload t₁ t₂ t₃
          ids = .ok (st, out) →
        (∀ n, out = some n → n.id = e.aggregateId) ∧
          ∀ id, id ≠ e.aggregateId → st.notifications.get id = s.store.notifications.get id

/-- **Events keep their identity and their route** over any chain of retries. -/
theorem events_routed (h : (machine env).Reach Machine.Always s) : EventsRouted env s := by
  have ht := traced_reach h
  have ha := addressed_reach h
  have hs := sorted_reach h
  refine ⟨fun e he => ?_, fun e he => ?_, fun q hq m hm => ?_, fun w d hw => ?_⟩
  · obtain ⟨-, n, hget, haddr, hkey⟩ := ha.events e he
    simp only [Payload.address, Notification.address, Prod.mk.injEq] at haddr
    obtain ⟨hid, hbatch, hsub, hchannel, htype⟩ := haddr
    exact ⟨n, hget, hid.trans (Table.get_key hget), hbatch, hsub, hchannel, htype, hkey⟩
  · obtain ⟨htype, n, -, hnames⟩ := ha.events e he
    rw [hnames.type]
    exact ⟨htype, publish_routed hnames htype⟩
  · obtain ⟨htype, hqueue⟩ := hs.queues q hq m hm
    obtain ⟨e, he, hid, hsame, hpayload, -⟩ := ht.known m (.inl ⟨q, hm⟩)
    exact ⟨htype, hqueue, e, he, hid, hsame, hpayload⟩
  · have hd : (s.workers w).delivery? = some d := by
      rw [hw]
      rfl
    obtain ⟨e, he, hid, hsame, hpayload, n, hget, hn, -⟩ :=
      names_of_known ht ha (known_of_delivery hd)
    have hnot := (hs.deliveries w d hd).1
    have hagg : d.message.payload.notificationId = e.aggregateId :=
      (Table.get_key hget).symm.trans hn
    refine ⟨e, he, hid, hsame, hsame ▸ hnot, hpayload, ⟨n, hget, hn, ?_⟩, ?_⟩
    · intro t₁ t₂ t₃ lockUntil ids hopen hlock hleft hlockUntil
      exact ⟨_, reserve_open hget hopen hlock hleft hlockUntil⟩
    intro t₁ t₂ t₃ ids st out hres
    have hreserved := reserve_ok hres
    refine ⟨fun m hm => ?_, fun id hne => reserved_get_ne hreserved (hagg ▸ hne)⟩
    exact ((reserved_referenced hreserved).2.2 m hm).1.trans hagg

/-- Two notifications are created, 1 and 11. The attempt for 11 meets a permanent error and writes a
failed event; that for 1 meets a temporary one, and worker 1 gets the message of its retry. -/
def Sample.retriedAndFailed : List Action :=
  creation ++ [.request 1 (.submit request "other"), .request 1 (.read 0 0),
    .request 1 (.commit (· + 10) fun _ => 0)] ++ publication ++
    [.publisher 0 .load, .publisher 0 .publish, .publisher 0 (.record 0),
      .worker 0 (.get .high
        ⟨13, .created, (createdEvent request (· + 10) (fun _ => 0) 0 7).payload⟩),
      .worker 0 (.reserve 0 0 0 ⟨4, 5⟩), .worker 0 .send, .worker 0 (.answer permanentError),
      .worker 0 (.apply 0 0 ⟨16, 17⟩), .worker 0 .ack, .worker 0 (.get .high message),
      .worker 0 (.reserve 0 0 0 ⟨4, 5⟩), .worker 0 .send, .worker 0 (.answer temporaryError),
      .worker 0 (.apply 0 0 ⟨6, 7⟩), .publisher 1 (.claim (sec 10) (sec 10) (sec 10) []),
      .publisher 1 .load, .publisher 1 .publish, .publisher 1 (.record (sec 10)),
      .publisher 1 .load, .publisher 1 .publish,
      .worker 1 (.get .high ⟨7, .retryScheduled,
        { message.payload with
          attempt := 2
          retryDelaySeconds := some 10
          errorMessage := some "provider is unavailable" }⟩)]

theorem events_routed_delivery : ∃ (s : State) (d : Delivery) (st : Store) (n : Notification),
    (∃ e ∈ s.store.outbox, e.eventType = .failed ∧ e.aggregateId = 11) ∧
    s.workers 1 = .received d ∧ d.message.eventType = .retryScheduled ∧
    reserve Sample.env.toSettings s.store d.message.payload.notificationId d.message.payload
      (Sample.sec 10) (Sample.sec 10) (Sample.sec 10) ⟨14, 15⟩ = .ok (st, some n) ∧ n.id = 1 ∧
    EventsRouted Sample.env s := by
  obtain ⟨s, hrun, hs⟩ := Machine.Run.exists_of_exec_always (machine Sample.env) (.initial 0)
    Sample.retriedAndFailed
    (fun s => s.store.outbox.rows.any (fun e => e.eventType = .failed && e.aggregateId = 11) &&
      (s.workers 1).delivery?.any fun d =>
        s.workers 1 = .received d && d.message.eventType = .retryScheduled &&
          (reserve Sample.env.toSettings s.store d.message.payload.notificationId d.message.payload
            (Sample.sec 10) (Sample.sec 10) (Sample.sec 10) ⟨14, 15⟩).toOption.any
              fun x => x.2.any (·.id = 1)) (by decide)
  simp only [Bool.and_eq_true, List.any_eq_true, Option.any_eq_true, decide_eq_true_eq] at hs
  obtain ⟨⟨e, he, htype, hagg⟩, d, -, ⟨hw, hretry⟩, ⟨st, out⟩, hok, n, hn, hid⟩ := hs
  have hrouted := events_routed (.run (.init ⟨0, rfl⟩) hrun)
  cases hres : reserve Sample.env.toSettings s.store d.message.payload.notificationId
      d.message.payload (Sample.sec 10) (Sample.sec 10) (Sample.sec 10) ⟨14, 15⟩ with
  | error err =>
    rw [hres] at hok
    cases hok
  | ok x =>
    rw [hres] at hok
    cases hok
    obtain rfl : out = some n := hn
    exact ⟨s, d, st, n, ⟨e, he, htype, hagg⟩, hw, hretry, hres, hid, hrouted⟩

end NotificationSystem
