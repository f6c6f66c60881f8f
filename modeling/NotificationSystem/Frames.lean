import NotificationSystem.Steps

/-!
# What a step leaves alone

A process moves only its own state and the shared tables it writes.
-/

namespace NotificationSystem

open Lib

variable {env : Deployment} {s s' : State}

/-- What a worker's step leaves alone. -/
structure WorkerFrame (w : Nat) (s s' : State) : Prop where
  publishers : s'.publishers = s.publishers
  requests : s'.requests = s.requests
  cleaners : s'.cleaners = s.cleaners
  redis : s'.redis = s.redis
  publishes : s'.publishes = s.publishes
  batches : s'.store.batches = s.store.batches
  idempotencyKeys : s'.store.idempotencyKeys = s.store.idempotencyKeys
  workers : ∀ v, v ≠ w → s'.workers v = s.workers v

/-- What a publisher's step leaves alone. -/
structure PublisherFrame (p : Nat) (s s' : State) : Prop where
  workers : s'.workers = s.workers
  requests : s'.requests = s.requests
  cleaners : s'.cleaners = s.cleaners
  redis : s'.redis = s.redis
  processed : s'.processed = s.processed
  batches : s'.store.batches = s.store.batches
  notifications : s'.store.notifications = s.store.notifications
  idempotencyKeys : s'.store.idempotencyKeys = s.store.idempotencyKeys
  publishers : ∀ r, r ≠ p → s'.publishers r = s.publishers r

/-- What a step of a request, of a cleaner, of the clock or of Redis leaves alone. -/
structure ApiFrame (s s' : State) : Prop where
  workers : s'.workers = s.workers
  publishers : s'.publishers = s.publishers
  broker : s'.broker = s.broker
  calls : s'.calls = s.calls
  publishes : s'.publishes = s.publishes
  processed : s'.processed = s.processed

/-- A reserve or an apply writes notifications, history and outbox only. -/
theorem reserved_api {cfg : Settings} {st st' : Store} {id : Uuid} {payload : Payload}
    {t₁ t₂ t₃ : Time} {ids : EventIds} {out : Option Notification}
    (h : Reserved cfg st id payload t₁ t₂ t₃ ids st' out) :
    st'.batches = st.batches ∧ st'.idempotencyKeys = st.idempotencyKeys := by
  cases h <;> exact ⟨rfl, rfl⟩

theorem applied_api {cfg : Settings} {st st' : Store} {id : Uuid} {payload : Payload}
    {loaded : Notification} {result : ProviderResult} {t₁ t₂ : Time} {ids : EventIds}
    (h : Applied cfg st id payload loaded result t₁ t₂ ids st') :
    st'.batches = st.batches ∧ st'.idempotencyKeys = st.idempotencyKeys := by
  cases h <;> exact ⟨rfl, rfl⟩

theorem workerFrame_of_setWorker {w : Nat} {x : Worker} {t : State}
    (hw : t.workers = (s.setWorker w x).workers) (hp : t.publishers = s.publishers)
    (hr : t.requests = s.requests) (hc : t.cleaners = s.cleaners) (hredis : t.redis = s.redis)
    (hpub : t.publishes = s.publishes) (hb : t.store.batches = s.store.batches)
    (hk : t.store.idempotencyKeys = s.store.idempotencyKeys) : WorkerFrame w s t :=
  ⟨hp, hr, hc, hredis, hpub, hb, hk, fun v hv => by rw [hw, setWorker_ne hv]⟩

theorem workerStep_frame {w : Nat} {a : WorkerAction} (h : workerStep env s w a = some s') :
    WorkerFrame w s s' := by
  cases workerStep_cases h with
  | @reserve d t₁ t₂ t₃ ids st out _ _ _ _ _ hres =>
    obtain ⟨hb, hk⟩ := reserved_api hres
    cases out <;> exact workerFrame_of_setWorker rfl rfl rfl rfl rfl rfl hb hk
  | apply _ _ _ _ happ =>
    obtain ⟨hb, hk⟩ := applied_api happ
    exact workerFrame_of_setWorker rfl rfl rfl rfl rfl rfl hb hk
  | get | reserveRaises | send | answer | sendRaises | applyRaises | ack | reject | crash
  | disconnect =>
    exact workerFrame_of_setWorker rfl rfl rfl rfl rfl rfl rfl rfl

theorem publisherFrame_of_setPublisher {p : Nat} {x : Publisher} {t : State}
    (hp : t.publishers = (s.setPublisher p x).publishers) (hw : t.workers = s.workers)
    (hr : t.requests = s.requests) (hc : t.cleaners = s.cleaners) (hredis : t.redis = s.redis)
    (hproc : t.processed = s.processed) (hb : t.store.batches = s.store.batches)
    (hn : t.store.notifications = s.store.notifications)
    (hk : t.store.idempotencyKeys = s.store.idempotencyKeys) : PublisherFrame p s t :=
  ⟨hw, hr, hc, hredis, hproc, hb, hn, hk, fun r hne => by simp [hp, State.setPublisher, hne]⟩

theorem publisherStep_frame {p : Nat} {a : PublisherAction}
    (h : publisherStep env s p a = some s') : PublisherFrame p s s' := by
  cases publisherStep_cases h with
  | claim | skip | load | publish | raise | recordPublished | recordRaised | stop =>
    exact publisherFrame_of_setPublisher rfl rfl rfl rfl rfl rfl rfl rfl rfl

theorem requestStep_frame {q : Nat} {a : RequestAction} (h : requestStep env s q a = some s') :
    ApiFrame s s' ∧ s'.cleaners = s.cleaners ∧ ∀ r, r ≠ q → s'.requests r = s.requests r := by
  have set {x : Request} {t : State} (hq : t.requests = (s.setRequest q x).requests) :
      ∀ r, r ≠ q → t.requests r = s.requests r := fun r hr => by
    simp [hq, State.setRequest, hr]
  cases requestStep_inv h with
  | submit | refuse | read | commit | rollBack | find | abort | own | lost | deleteLock | crash =>
    exact ⟨⟨rfl, rfl, rfl, rfl, rfl, rfl⟩, rfl, set rfl⟩

theorem cleanerStep_frame {c : Nat} {a : CleanerAction} (h : cleanerStep s c a = some s') :
    ApiFrame s s' ∧ s'.requests = s.requests ∧ s'.redis = s.redis := by
  cases cleanerStep_inv h with
  | select | delete | crash => exact ⟨⟨rfl, rfl, rfl, rfl, rfl, rfl⟩, rfl, rfl⟩

end NotificationSystem
