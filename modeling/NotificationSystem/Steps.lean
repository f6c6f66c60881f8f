import NotificationSystem.System

/-!
# What a step can do

For each party an inversion theorem says what its steps are (`workerStep_cases`,
`publisherStep_inv`, `requestStep_inv`, `cleanerStep_inv`), and one for the delivery half of the
store, `change_of_step`: a step either leaves the notifications, their history and the outbox
alone, or it is one of the five transactions that write them. The invariants are proved by cases
on these, never by unfolding `step`.
-/

namespace NotificationSystem

open Lib

variable {env : Deployment} {s s' : State} {a : Action}

/-- Everything about the delivery tables, the provider calls and the attempts in flight that
a step changes. -/
inductive Change (env : Deployment) (s : State) : Action → State → Prop
  | quiet {a : Action} {s' : State} : s.now ≤ s'.now →
      s'.store.notifications = s.store.notifications → s'.store.history = s.store.history →
      s'.store.outbox = s.store.outbox → s'.calls = s.calls →
      (∀ w f', (s'.workers w).flight? = some f' →
        ∃ f, (s.workers w).flight? = some f ∧ f.Continues f') →
      s'.processed = s.processed → Change env s a s'
  | call {w : Nat} {d : Delivery} {n : Notification} : s.workers w = .reserved d n →
      Change env s (.worker w .send)
        { s.setWorker w (.calling d n) with calls := s.calls ++ [providerCall n] }
  | reserve {w : Nat} {d : Delivery} {t₁ t₂ t₃ : Time} {ids : EventIds} {st : Store}
      {out : Option Notification} :
      s.workers w = .received d → s.now ≤ t₁ → t₁ ≤ t₂ → t₂ ≤ t₃ →
      s.store.Fresh [ids.eventId, ids.rowId] →
      Reserved env.toSettings s.store d.message.payload.notificationId d.message.payload
        t₁ t₂ t₃ ids st out →
      Change env s (.worker w (.reserve t₁ t₂ t₃ ids)) (afterReserve s w d t₃ (.ok (st, out)))
  | apply {w : Nat} {d : Delivery} {n : Notification} {result : ProviderResult} {t₁ t₂ : Time}
      {ids : EventIds} {st : Store} :
      s.workers w = .responded d n result → s.now ≤ t₁ → t₁ ≤ t₂ →
      s.store.Fresh [ids.eventId, ids.rowId] →
      Applied env.toSettings s.store d.message.payload.notificationId d.message.payload n result
        t₁ t₂ ids st →
      Change env s (.worker w (.apply t₁ t₂ ids)) (afterApply s w d t₂ (.ok st))
  | claim {p : Nat} {t₁ t₂ t₃ claimDeadline : Time} {locked : List Uuid} {s' : State} :
      s.publishers p = .idle → s.now ≤ t₁ → t₁ ≤ t₂ → t₂ ≤ t₃ →
      s' = { s.setPublisher p (.working ((selectClaimable env.toSettings s.store t₁ claimDeadline
          locked).map fun e => ⟨e.id, e.eventType, e.payload⟩)) with
        now := t₃
        store := claimRows s.store (selectClaimable env.toSettings s.store t₁ claimDeadline
          locked) t₃ } →
      Change env s (.publisher p (.claim t₁ t₂ t₃ locked)) s'
  | recordPublished {p : Nat} {t : Time} {row : OutboxEvent} {todo : List ClaimedOutboxEvent} :
      s.publishers p = .published row todo → s.now ≤ t →
      Change env s (.publisher p (.record t))
        { s.setPublisher p (.working todo) with
          now := t
          store := s.store.saveOutboxEvent row (row.markPublished t) }
  | recordRaised {p : Nat} {t : Time} {row : OutboxEvent} {error : String}
      {todo : List ClaimedOutboxEvent} :
      s.publishers p = .raised row error todo → s.now ≤ t →
      Change env s (.publisher p (.record t))
        { s.setPublisher p (.working todo) with
          now := t
          store := s.store.saveOutboxEvent row (row.markPublishFailed env.toSettings error) }
  | commit {q : Nat} {r : Request} {reservation : Reservation} {ids : Nat → Uuid}
      {stamps : Nat → Time} {st : Store} {response : BulkNotificationResponse} :
      s.requests q = some r → r.phase = .reserved reservation →
      s.store.Fresh (bulkIds ids (distinctRecipients r.body.recipientIds).length) →
      commitBulk s.store r.body r.key (env.requestHash r.body) reservation ids stamps =
        .ok (st, response) →
      (∀ row ∈ newHistory r.body ids stamps, row.createdAt ≤ s.now) →
      Change env s (.request q (.commit ids stamps))
        { s.setRequest q { r with phase := .releasing (.accepted response) } with store := st }

/-! ## Frame lemmas of the setters -/

section setters

variable {w v p q : Nat} {x : Worker}

@[simp] theorem setWorker_self : (s.setWorker w x).workers w = x := by simp [State.setWorker]

theorem setWorker_ne (h : v ≠ w) : (s.setWorker w x).workers v = s.workers v := by
  simp [State.setWorker, h]

theorem setWorker_workers :
    (s.setWorker w x).workers v = if v = w then x else s.workers v := by
  by_cases h : v = w
  · subst h; simp
  · simp [setWorker_ne h, h]

@[simp] theorem disconnected_flight : x.disconnected.flight? = x.flight? := by
  cases x <;> rfl

@[simp] theorem continues_refl (f : Flight) : f.Continues f := ⟨rfl, rfl, rfl⟩

theorem flight_same (w : Nat) (f : Flight) (hf : (s.workers w).flight? = some f) :
    ∃ g, (s.workers w).flight? = some g ∧ g.Continues f := ⟨f, hf, continues_refl f⟩

theorem flight_setWorker
    (h : ∀ f', x.flight? = some f' → ∃ f, (s.workers w).flight? = some f ∧ f.Continues f')
    (v : Nat) (f' : Flight) (hf' : ((s.setWorker w x).workers v).flight? = some f') :
    ∃ f, (s.workers v).flight? = some f ∧ f.Continues f' := by
  by_cases hv : v = w
  · subst hv
    rw [setWorker_self] at hf'
    exact h f' hf'
  · rw [setWorker_ne hv] at hf'
    exact ⟨f', hf', continues_refl f'⟩

theorem flight_setWorker_none (h : x.flight? = none) (v : Nat) (f' : Flight)
    (hf' : ((s.setWorker w x).workers v).flight? = some f') :
    ∃ f, (s.workers v).flight? = some f ∧ f.Continues f' :=
  flight_setWorker (fun _ hx => by rw [h] at hx; cases hx) v f' hf'

section after

variable {d : Delivery} {n : Notification} {t : Time} {st : Store} {out : Option Notification}

@[simp] theorem afterReserve_store : (afterReserve s w d t (.ok (st, out))).store = st := by
  cases out <;> rfl

@[simp] theorem afterReserve_now : (afterReserve s w d t (.ok (st, out))).now = t := by
  cases out <;> rfl

@[simp] theorem afterReserve_calls : (afterReserve s w d t (.ok (st, out))).calls = s.calls := by
  cases out <;> rfl

theorem afterReserve_flight :
    ((afterReserve s w d t (.ok (st, out))).workers v).flight? =
      if v = w then out.map fun n => { loaded := n, payload := d.message.payload }
      else (s.workers v).flight? := by
  cases out <;> simp only [afterReserve, setWorker_workers] <;> split <;> rfl

@[simp] theorem afterApply_store : (afterApply s w d t (.ok st)).store = st := rfl

@[simp] theorem afterApply_now : (afterApply s w d t (.ok st)).now = t := rfl

@[simp] theorem afterApply_calls : (afterApply s w d t (.ok st)).calls = s.calls := rfl

theorem afterApply_flight :
    ((afterApply s w d t (.ok st)).workers v).flight? =
      if v = w then none else (s.workers v).flight? := by
  simp only [afterApply, setWorker_workers]
  split <;> rfl

theorem calling_flight :
    ((s.setWorker w (.calling d n)).workers v).flight? =
      if v = w then some { loaded := n, payload := d.message.payload, called := true }
      else (s.workers v).flight? := by
  rw [setWorker_workers]
  split <;> rfl

end after

end setters

/-! ## The steps of a worker -/

/-- The steps of a worker, with what each leaves. -/
inductive WorkerChange (env : Deployment) (s : State) (w : Nat) : WorkerAction → State → Prop
  | get {queue : QueueName} {message : Message} : s.workers w = .idle →
      message ∈ s.broker.queues queue →
      WorkerChange env s w (.get queue message)
        { s.setWorker w (.received ⟨message, queue, true⟩) with
          broker := s.broker.take queue message }
  | reserve {d : Delivery} {t₁ t₂ t₃ : Time} {ids : EventIds} {st : Store}
      {out : Option Notification} :
      s.workers w = .received d → s.now ≤ t₁ → t₁ ≤ t₂ → t₂ ≤ t₃ →
      s.store.Fresh [ids.eventId, ids.rowId] →
      Reserved env.toSettings s.store d.message.payload.notificationId d.message.payload
        t₁ t₂ t₃ ids st out →
      WorkerChange env s w (.reserve t₁ t₂ t₃ ids) (afterReserve s w d t₃ (.ok (st, out)))
  | reserveRaises {d : Delivery} {t₁ t₂ t₃ : Time} {ids : EventIds} {e : Raised} :
      s.workers w = .received d → s.now ≤ t₁ → t₁ ≤ t₂ → t₂ ≤ t₃ →
      WorkerChange env s w (.reserve t₁ t₂ t₃ ids) (afterReserve s w d t₃ (.error e))
  | send {d : Delivery} {n : Notification} : s.workers w = .reserved d n →
      WorkerChange env s w .send
        { s.setWorker w (.calling d n) with calls := s.calls ++ [providerCall n] }
  | answer {d : Delivery} {n : Notification} {result : ProviderResult} :
      s.workers w = .calling d n →
      WorkerChange env s w (.answer result) (s.setWorker w (.responded d n result))
  | sendRaises {d : Delivery} {n : Notification} {error : String} :
      s.workers w = .calling d n →
      WorkerChange env s w (.sendRaises error)
        (s.setWorker w (.responded d n (exceptionResult error)))
  | apply {d : Delivery} {n : Notification} {result : ProviderResult} {t₁ t₂ : Time}
      {ids : EventIds} {st : Store} :
      s.workers w = .responded d n result → s.now ≤ t₁ → t₁ ≤ t₂ →
      s.store.Fresh [ids.eventId, ids.rowId] →
      Applied env.toSettings s.store d.message.payload.notificationId d.message.payload n result
        t₁ t₂ ids st →
      WorkerChange env s w (.apply t₁ t₂ ids) (afterApply s w d t₂ (.ok st))
  | applyRaises {d : Delivery} {n : Notification} {result : ProviderResult} {t₁ t₂ : Time}
      {ids : EventIds} {e : Raised} :
      s.workers w = .responded d n result → s.now ≤ t₁ → t₁ ≤ t₂ →
      s.store.Fresh [ids.eventId, ids.rowId] →
      apply env.toSettings s.store d.message.payload.notificationId d.message.payload n result
        t₁ t₂ ids = .error e →
      WorkerChange env s w (.apply t₁ t₂ ids) (afterApply s w d t₂ (.error e))
  | ack {d : Delivery} : s.workers w = .finished d →
      WorkerChange env s w .ack (s.setWorker w .idle)
  | reject {d : Delivery} {dead : Bool} : s.workers w = .failing d →
      WorkerChange env s w (.reject dead)
        { s.setWorker w .idle with broker := d.giveBack s.broker dead }
  | crash {d : Delivery} {dead : Bool} : (s.workers w).delivery? = some d →
      WorkerChange env s w (.crash dead)
        { s.setWorker w .idle with broker := d.giveBack s.broker dead }
  | disconnect {d : Delivery} {dead : Bool} : (s.workers w).delivery? = some d →
      WorkerChange env s w (.disconnect dead)
        { s.setWorker w (s.workers w).disconnected with
          broker := d.giveBack s.broker dead }

theorem workerStep_cases {w : Nat} {a : WorkerAction} (h : workerStep env s w a = some s') :
    WorkerChange env s w a s' := by
  cases a with
  | get queue message =>
    simp only [workerStep] at h
    split at h
    · next hw =>
      split at h
      · next hc =>
        cases h
        exact .get hw hc.2
      · cases h
    · cases h
  | reserve t₁ t₂ t₃ ids =>
    simp only [workerStep] at h
    split at h
    · next d hw =>
      split at h
      · next hc =>
        obtain ⟨h₁, h₂, h₃, hfresh⟩ := hc
        cases h
        generalize hres : reserve env.toSettings s.store _ _ t₁ t₂ t₃ ids = r
        cases r with
        | error e => exact .reserveRaises hw h₁ h₂ h₃
        | ok reserved => exact .reserve hw h₁ h₂ h₃ hfresh (reserve_ok hres)
      · cases h
    · cases h
  | send =>
    simp only [workerStep] at h
    split at h
    · next d n hw =>
      cases h
      exact .send hw
    · cases h
  | answer result =>
    simp only [workerStep] at h
    split at h
    · next d n hw =>
      cases h
      exact .answer hw
    · cases h
  | sendRaises error =>
    simp only [workerStep] at h
    split at h
    · next d n hw =>
      cases h
      exact .sendRaises hw
    · cases h
  | apply t₁ t₂ ids =>
    simp only [workerStep] at h
    split at h
    · next d n result hw =>
      split at h
      · next hc =>
        obtain ⟨h₁, h₂, hfresh⟩ := hc
        cases h
        generalize happ : NotificationSystem.apply env.toSettings s.store _ _ n result t₁ t₂ ids = r
        cases r with
        | error e => exact .applyRaises hw h₁ h₂ hfresh happ
        | ok st => exact .apply hw h₁ h₂ hfresh (apply_ok happ)
      · cases h
    · cases h
  | ack =>
    simp only [workerStep] at h
    split at h
    · next d hw =>
      cases h
      exact .ack hw
    · cases h
  | reject dead =>
    simp only [workerStep] at h
    split at h
    · next d hw =>
      cases h
      exact .reject hw
    · cases h
  | crash dead =>
    simp only [workerStep] at h
    split at h
    · next d hd =>
      cases h
      exact .crash hd
    · cases h
  | disconnect dead =>
    simp only [workerStep] at h
    split at h
    · next d hd =>
      cases h
      exact .disconnect hd
    · cases h

/-! ## The steps of a publisher -/

/-- The steps of a publisher, with their guards and with what each leaves. -/
inductive PublisherStep (env : Deployment) (s : State) (p : Nat) : PublisherAction → State → Prop
  | claim {t₁ t₂ t₃ claimDeadline : Time} {locked : List Uuid} : s.publishers p = .idle →
      s.now ≤ t₁ → t₁ ≤ t₂ → t₂ ≤ t₃ →
      addSeconds t₂ (-env.outboxClaimTimeoutSeconds) = some claimDeadline →
      PublisherStep env s p (.claim t₁ t₂ t₃ locked)
        { s.setPublisher p (.working ((selectClaimable env.toSettings s.store t₁ claimDeadline
            locked).map fun e => ⟨e.id, e.eventType, e.payload⟩)) with
          now := t₃
          store := claimRows s.store (selectClaimable env.toSettings s.store t₁ claimDeadline
            locked) t₃ }
  | skip {e : ClaimedOutboxEvent} {todo : List ClaimedOutboxEvent} :
      s.publishers p = .working (e :: todo) → s.store.outbox.get e.id = none →
      PublisherStep env s p .load (s.setPublisher p (.working todo))
  | load {e : ClaimedOutboxEvent} {row : OutboxEvent} {todo : List ClaimedOutboxEvent} :
      s.publishers p = .working (e :: todo) → s.store.outbox.get e.id = some row →
      PublisherStep env s p .load (s.setPublisher p (.loaded e row todo))
  | publish {e : ClaimedOutboxEvent} {row : OutboxEvent} {todo : List ClaimedOutboxEvent}
      {queue : QueueName} : s.publishers p = .loaded e row todo →
      publishOutboxEvent e.eventType e.payload = some queue →
      PublisherStep env s p .publish
        { s.setPublisher p (.published row todo) with
          broker := s.broker.push queue e.message
          publishes := s.publishes ++ [⟨e.id, s.now, false⟩] }
  | publishRaises {e : ClaimedOutboxEvent} {row : OutboxEvent} {todo : List ClaimedOutboxEvent}
      {error : String} {accepted : Bool} : s.publishers p = .loaded e row todo →
      PublisherStep env s p (.publishRaises error accepted)
        { s.setPublisher p (.raised row error todo) with
          broker := afterRaise s.broker e accepted
          publishes := s.publishes ++ [⟨e.id, s.now, true⟩] }
  | recordPublished {row : OutboxEvent} {todo : List ClaimedOutboxEvent} {t : Time} :
      s.publishers p = .published row todo → s.now ≤ t →
      PublisherStep env s p (.record t)
        { s.setPublisher p (.working todo) with
          now := t
          store := s.store.saveOutboxEvent row (row.markPublished t) }
  | recordRaised {row : OutboxEvent} {error : String} {todo : List ClaimedOutboxEvent}
      {t : Time} : s.publishers p = .raised row error todo → s.now ≤ t →
      PublisherStep env s p (.record t)
        { s.setPublisher p (.working todo) with
          now := t
          store := s.store.saveOutboxEvent row (row.markPublishFailed env.toSettings error) }
  | done : s.publishers p = .working [] → PublisherStep env s p .done (s.setPublisher p .idle)
  | crash : PublisherStep env s p .crash (s.setPublisher p .idle)

theorem publisherStep_inv {p : Nat} {a : PublisherAction} (h : publisherStep env s p a = some s') :
    PublisherStep env s p a s' := by
  cases a with
  | claim t₁ t₂ t₃ locked =>
    simp only [publisherStep] at h
    split at h
    · next hp =>
      split at h
      · next hc =>
        obtain ⟨h₁, h₂, h₃⟩ := hc
        simp only [claimPending, Option.map_map, Option.map_eq_some_iff] at h
        obtain ⟨claimDeadline, hd, rfl⟩ := h
        exact .claim hp h₁ h₂ h₃ hd
      · cases h
    · cases h
  | load =>
    simp only [publisherStep] at h
    split at h
    · next e todo hp =>
      split at h
      · next hrow =>
        cases h
        exact .skip hp hrow
      · next row hrow =>
        cases h
        exact .load hp hrow
    · cases h
  | publish =>
    simp only [publisherStep] at h
    split at h
    · next e row todo hp =>
      simp only [Option.map_eq_some_iff] at h
      obtain ⟨queue, hq, rfl⟩ := h
      exact .publish hp hq
    · cases h
  | publishRaises error accepted =>
    simp only [publisherStep] at h
    split at h
    · next e row todo hp =>
      cases h
      exact .publishRaises hp
    · cases h
  | record t =>
    simp only [publisherStep] at h
    split at h
    · next ht =>
      split at h
      · next hp =>
        cases h
        exact .recordPublished hp ht
      · next hp =>
        cases h
        exact .recordRaised hp ht
      · cases h
    · cases h
  | done =>
    simp only [publisherStep] at h
    split at h
    · next hp =>
      cases h
      exact .done hp
    · cases h
  | crash =>
    cases h
    exact .crash

/-- What the steps of a publisher leave, whichever action led there. -/
inductive PublisherChange (env : Deployment) (s : State) (p : Nat) : State → Prop
  | claim {t₁ t₃ claimDeadline : Time} {locked : List Uuid} : s.publishers p = .idle →
      s.now ≤ t₁ → t₁ ≤ t₃ →
      PublisherChange env s p
        { s.setPublisher p (.working ((selectClaimable env.toSettings s.store t₁ claimDeadline
            locked).map fun e => ⟨e.id, e.eventType, e.payload⟩)) with
          now := t₃
          store := claimRows s.store (selectClaimable env.toSettings s.store t₁ claimDeadline
            locked) t₃ }
  | skip {e : ClaimedOutboxEvent} {todo : List ClaimedOutboxEvent} :
      s.publishers p = .working (e :: todo) →
      PublisherChange env s p (s.setPublisher p (.working todo))
  | load {e : ClaimedOutboxEvent} {row : OutboxEvent} {todo : List ClaimedOutboxEvent} :
      s.publishers p = .working (e :: todo) → s.store.outbox.get e.id = some row →
      PublisherChange env s p (s.setPublisher p (.loaded e row todo))
  | publish {e : ClaimedOutboxEvent} {row : OutboxEvent} {todo : List ClaimedOutboxEvent}
      {queue : QueueName} : s.publishers p = .loaded e row todo →
      publishOutboxEvent e.eventType e.payload = some queue →
      PublisherChange env s p
        { s.setPublisher p (.published row todo) with
          broker := s.broker.push queue e.message
          publishes := s.publishes ++ [⟨e.id, s.now, false⟩] }
  | raise {e : ClaimedOutboxEvent} {row : OutboxEvent} {todo : List ClaimedOutboxEvent}
      {error : String} {accepted : Bool} : s.publishers p = .loaded e row todo →
      PublisherChange env s p
        { s.setPublisher p (.raised row error todo) with
          broker := afterRaise s.broker e accepted
          publishes := s.publishes ++ [⟨e.id, s.now, true⟩] }
  | recordPublished {row : OutboxEvent} {todo : List ClaimedOutboxEvent} {t : Time} :
      s.publishers p = .published row todo → s.now ≤ t →
      PublisherChange env s p
        { s.setPublisher p (.working todo) with
          now := t
          store := s.store.saveOutboxEvent row (row.markPublished t) }
  | recordRaised {row : OutboxEvent} {error : String} {todo : List ClaimedOutboxEvent}
      {t : Time} : s.publishers p = .raised row error todo → s.now ≤ t →
      PublisherChange env s p
        { s.setPublisher p (.working todo) with
          now := t
          store := s.store.saveOutboxEvent row (row.markPublishFailed env.toSettings error) }
  | stop : PublisherChange env s p (s.setPublisher p .idle)

theorem publisherStep_cases {p : Nat} {a : PublisherAction}
    (h : publisherStep env s p a = some s') : PublisherChange env s p s' := by
  cases publisherStep_inv h with
  | claim hp h₁ h₂ h₃ => exact .claim hp h₁ (h₂.trans h₃)
  | skip hp => exact .skip hp
  | load hp hrow => exact .load hp hrow
  | publish hp hq => exact .publish hp hq
  | publishRaises hp => exact .raise hp
  | recordPublished hp ht => exact .recordPublished hp ht
  | recordRaised hp ht => exact .recordRaised hp ht
  | done | crash => exact .stop

/-! ## The steps of a request -/

/-- The steps of a request, with their guards and with what each leaves. -/
inductive RequestStep (env : Deployment) (s : State) (q : Nat) : RequestAction → State → Prop
  | submit {body : BulkNotificationRequest} {key : String} : s.requests q = none →
      s.redis key = none →
      RequestStep env s q (.submit body key)
        { s.setRequest q ⟨body, key, .locked⟩ with
          redis := Function.update s.redis key (some q) }
  | refuse {body : BulkNotificationRequest} {key : String} : s.requests q = none →
      s.redis key ≠ none →
      RequestStep env s q (.submit body key) (s.setRequest q ⟨body, key, .done .inProgress⟩)
  | read {r : Request} {t₁ t₂ : Time} : s.requests q = some r → r.phase = .locked →
      s.now ≤ t₁ → t₁ ≤ t₂ →
      RequestStep env s q (.read t₁ t₂)
        { s.setRequest q { r with
          phase := afterRead
            (reserveOrGet env.toSettings s.store r.key (env.requestHash r.body) t₁ t₂) } with
          now := t₂ }
  | commit {r : Request} {reservation : Reservation} {ids : Nat → Uuid} {stamps : Nat → Time}
      {st : Store} {response : BulkNotificationResponse} : s.requests q = some r →
      r.phase = .reserved reservation →
      s.store.Fresh (bulkIds ids (distinctRecipients r.body.recipientIds).length) →
      commitBulk s.store r.body r.key (env.requestHash r.body) reservation ids stamps =
        .ok (st, response) →
      (∀ row ∈ newHistory r.body ids stamps, row.createdAt ≤ s.now) →
      RequestStep env s q (.commit ids stamps)
        { s.setRequest q { r with phase := .releasing (.accepted response) } with store := st }
  | rollBack {r : Request} {reservation : Reservation} {ids : Nat → Uuid} {stamps : Nat → Time}
      {e : Raised} : s.requests q = some r → r.phase = .reserved reservation →
      s.store.Fresh (bulkIds ids (distinctRecipients r.body.recipientIds).length) →
      commitBulk s.store r.body r.key (env.requestHash r.body) reservation ids stamps =
        .error e → e ≠ .dataError →
      RequestStep env s q (.commit ids stamps)
        (s.setRequest q { r with
          phase := if e = .integrityError then .rolledBack else .releasing .raised })
  | find {r : Request} : s.requests q = some r → r.phase = .rolledBack →
      RequestStep env s q .find
        (s.setRequest q { r with
          phase := afterFind (env.requestHash r.body) (findRecord s.store r.key) })
  | abort {r : Request} : s.requests q = some r →
      (r.phase = .locked ∨ (∃ reservation, r.phase = .reserved reservation) ∨
        r.phase = .rolledBack) →
      RequestStep env s q .abort (s.setRequest q { r with phase := .releasing .raised })
  | own {r : Request} {outcome : Outcome} : s.requests q = some r →
      r.phase = .releasing outcome → s.redis r.key = some q →
      RequestStep env s q .getLock (s.setRequest q { r with phase := .deleting outcome })
  | lost {r : Request} {outcome : Outcome} : s.requests q = some r →
      r.phase = .releasing outcome → s.redis r.key ≠ some q →
      RequestStep env s q .getLock (s.setRequest q { r with phase := .done outcome })
  | deleteLock {r : Request} {outcome : Outcome} : s.requests q = some r →
      r.phase = .deleting outcome →
      RequestStep env s q .deleteLock
        { s.setRequest q { r with phase := .done outcome } with
          redis := Function.update s.redis r.key none }
  | crash {r : Request} : s.requests q = some r → (∀ outcome, r.phase ≠ .done outcome) →
      RequestStep env s q .crash (s.setRequest q { r with phase := .done .crashed })

theorem requestStep_inv {q : Nat} {a : RequestAction} (h : requestStep env s q a = some s') :
    RequestStep env s q a s' := by
  unfold requestStep at h
  split at h
  · next r hq =>
    cases a with
    | submit body key => cases h
    | read t₁ t₂ =>
      simp only [activeRequestStep] at h
      split at h
      · next hc =>
        cases h
        exact .read hq hc.1 hc.2.1 hc.2.2
      · cases h
    | commit ids stamps =>
      simp only [activeRequestStep] at h
      split at h
      · next reservation hphase =>
        split at h
        · next hguard =>
          generalize hcom : commitBulk s.store r.body r.key _ reservation ids stamps = result at h
          cases result with
          | ok created =>
            cases h
            exact .commit hq hphase hguard.1 hcom hguard.2
          | error e => cases e <;> cases h <;> exact .rollBack hq hphase hguard.1 hcom (by nofun)
        · cases h
      · cases h
    | find =>
      simp only [activeRequestStep] at h
      split at h
      · next hphase =>
        cases h
        exact .find hq hphase
      · cases h
    | abort =>
      simp only [activeRequestStep] at h
      split at h
      · next hphase =>
        cases h
        exact .abort hq (.inl hphase)
      · next reservation hphase =>
        cases h
        exact .abort hq (.inr (.inl ⟨reservation, hphase⟩))
      · next hphase =>
        cases h
        exact .abort hq (.inr (.inr hphase))
      · cases h
    | getLock =>
      simp only [activeRequestStep] at h
      split at h
      · next outcome hphase =>
        split at h
        · next hown =>
          cases h
          exact .own hq hphase hown
        · next hlost =>
          cases h
          exact .lost hq hphase hlost
      · cases h
    | deleteLock =>
      simp only [activeRequestStep] at h
      split at h
      · next outcome hphase =>
        cases h
        exact .deleteLock hq hphase
      · cases h
    | crash =>
      simp only [activeRequestStep] at h
      split at h
      · cases h
      · next hphase =>
        cases h
        exact .crash hq hphase
  · next hq =>
    split at h
    · next body key =>
      split at h
      · next hfree =>
        cases h
        exact .submit hq hfree
      · next hheld =>
        cases h
        exact .refuse hq (by simp [hheld])
    · cases h

/-! ## The steps of a cleaner -/

/-- The steps of a cleaner, with their guards and with what each leaves. -/
inductive CleanerStep (s : State) (c : Nat) : CleanerAction → State → Prop
  | select {t₁ : Time} : s.cleaners c = none → s.now ≤ t₁ →
      CleanerStep s c (.select t₁)
        { s with
          now := t₁
          cleaners := Function.update s.cleaners c (some (expiredRecords s.store t₁)) }
  | delete {t₂ : Time} {selected : List IdempotencyKey} : s.cleaners c = some selected →
      s.now ≤ t₂ →
      CleanerStep s c (.delete t₂)
        { s with
          now := t₂
          store := deleteExpired s.store selected t₂
          cleaners := Function.update s.cleaners c none }
  | crash :
      CleanerStep s c .crash { s with cleaners := Function.update s.cleaners c none }

theorem cleanerStep_inv {c : Nat} {a : CleanerAction} (h : cleanerStep s c a = some s') :
    CleanerStep s c a s' := by
  cases a with
  | select t₁ =>
    simp only [cleanerStep] at h
    split at h
    · next hc =>
      cases h
      exact .select hc.1 hc.2
    · cases h
  | delete t₂ =>
    simp only [cleanerStep] at h
    split at h
    · next selected hsel =>
      split at h
      · next ht =>
        cases h
        exact .delete hsel ht
      · cases h
    · cases h
  | crash =>
    cases h
    exact .crash

/-! ## The inversion theorem -/

theorem workerStep_change {w : Nat} {a : WorkerAction}
    (h : workerStep env s w a = some s') : Change env s (.worker w a) s' := by
  cases workerStep_cases h with
  | get | ack | reject | crash =>
    exact .quiet le_rfl rfl rfl rfl rfl (flight_setWorker_none rfl) rfl
  | reserve hw h₁ h₂ h₃ hfresh hres => exact .reserve hw h₁ h₂ h₃ hfresh hres
  | reserveRaises _ h₁ h₂ h₃ =>
    exact .quiet (h₁.trans (h₂.trans h₃)) rfl rfl rfl rfl (flight_setWorker_none rfl) rfl
  | send hw => exact .call hw
  | answer hw | sendRaises hw =>
    refine .quiet le_rfl rfl rfl rfl rfl (flight_setWorker fun f' hf' => ?_) rfl
    cases hf'
    exact ⟨_, congrArg Worker.flight? hw, rfl, rfl, rfl⟩
  | apply hw h₁ h₂ hfresh happ => exact .apply hw h₁ h₂ hfresh happ
  | applyRaises _ h₁ h₂ =>
    exact .quiet (h₁.trans h₂) rfl rfl rfl rfl (flight_setWorker_none rfl) rfl
  | disconnect =>
    refine .quiet le_rfl rfl rfl rfl rfl (flight_setWorker fun f' hf' => ?_) rfl
    exact ⟨f', by rwa [disconnected_flight] at hf', continues_refl f'⟩

theorem publisherStep_change {p : Nat} {a : PublisherAction}
    (h : publisherStep env s p a = some s') : Change env s (.publisher p a) s' := by
  cases publisherStep_inv h with
  | claim hp h₁ h₂ h₃ => exact .claim hp h₁ h₂ h₃ rfl
  | recordPublished hp ht => exact .recordPublished hp ht
  | recordRaised hp ht => exact .recordRaised hp ht
  | skip | load | publish | publishRaises | done | crash =>
    exact .quiet le_rfl rfl rfl rfl rfl flight_same rfl

theorem requestStep_change {q : Nat} {a : RequestAction}
    (h : requestStep env s q a = some s') : Change env s (.request q a) s' := by
  cases requestStep_inv h with
  | read _ _ h₁ h₂ => exact .quiet (h₁.trans h₂) rfl rfl rfl rfl flight_same rfl
  | commit hq hphase hfresh hcom hstamps => exact .commit hq hphase hfresh hcom hstamps
  | submit | refuse | rollBack | find | abort | own | lost | deleteLock | crash =>
    exact .quiet le_rfl rfl rfl rfl rfl flight_same rfl

theorem cleanerStep_change {c : Nat} {a : CleanerAction}
    (h : cleanerStep s c a = some s') : Change env s (.cleaner c a) s' := by
  cases cleanerStep_inv h with
  | select _ ht => exact .quiet ht rfl rfl rfl rfl flight_same rfl
  | delete _ ht => exact .quiet ht (by simp) (by simp) (by simp) rfl flight_same rfl
  | crash => exact .quiet le_rfl rfl rfl rfl rfl flight_same rfl

/-- **The inversion theorem.** -/
theorem change_of_step (h : step env s a = some s') : Change env s a s' := by
  cases a with
  | tick t =>
    simp only [step] at h
    split at h
    · next ht =>
      cases h
      exact .quiet ht rfl rfl rfl rfl flight_same rfl
    · cases h
  | worker w a => exact workerStep_change h
  | publisher p a => exact publisherStep_change h
  | request q a => exact requestStep_change h
  | cleaner c a => exact cleanerStep_change h
  | redisExpire key =>
    cases h
    exact .quiet le_rfl rfl rfl rfl rfl flight_same rfl

/-- A reserve that returns a notification found it open, unlocked and with attempts left. -/
theorem reserve_flight {w : Nat} {t₁ t₂ t₃ : Time} {ids : EventIds} {f : Flight}
    (h : step env s (.worker w (.reserve t₁ t₂ t₃ ids)) = some s')
    (hf : (s'.workers w).flight? = some f) :
    ∃ n lockUntil, s.store.notifications.get f.loaded.id = some n ∧ n.isFinal = false ∧
      n.hasActiveProcessingLock t₁ = false ∧ n.attempts < env.maxRetries ∧
      addSeconds t₂ env.processingLockTtlSeconds = some lockUntil ∧
      f.loaded = n.reserved lockUntil ∧ s.now ≤ t₁ ∧ t₁ ≤ t₂ := by
  have hchange : WorkerChange env s w (.reserve t₁ t₂ t₃ ids) s' := workerStep_cases h
  cases hchange with
  | reserve _ h₁ h₂ _ _ hres =>
    rw [afterReserve_flight, if_pos rfl] at hf
    cases hres with
    | missing | final | covered | deferred | refused => cases hf
    | @attempt n lockUntil hget hopen hlock hmax hadd =>
      cases hf
      have hid := Table.get_key hget
      exact ⟨n, lockUntil, hid ▸ hget, hopen, hlock, hmax, hadd, rfl, h₁, h₂⟩
  | reserveRaises => cases hf.symm.trans (congrArg Worker.flight? setWorker_self)

end NotificationSystem
