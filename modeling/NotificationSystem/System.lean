import NotificationSystem.Idempotency
import NotificationSystem.Lib.Transition
import NotificationSystem.Publisher
import NotificationSystem.ResultHandler

/-!
# The system

The database, the broker, Redis, and any number of workers, publishers, API requests and
cleaners, each a small state machine. A step is one transaction, one call to the broker, the
provider or Redis, or a crash, so a run is any interleaving of these.

All clocks are one: `State.now` never decreases, and each call of `utcnow()` in a step is a
reading of its own, no earlier than the last. A bulk creation reads the clock for its rows before
it commits; of these readings only those of the history rows are compared with others.

Three logs grow with the run and are never read by a step: the provider calls, the publish
calls, and the messages that were processed to the end.
-/

namespace NotificationSystem

open Lib

/-! ## Processes -/

/-- A delivered message; `live` while the broker awaits its ack from this consumer. -/
structure Delivery where
  message : Message
  queue : QueueName
  live : Bool
  deriving DecidableEq, Repr

/-- Where a worker stands in `Worker.run_forever`. From `reserved` on it holds the instance
that `reserve` returned, which its session keeps until `apply`. -/
inductive Worker
  | idle
  | received (d : Delivery)
  | reserved (d : Delivery) (loaded : Notification)
  | calling (d : Delivery) (loaded : Notification)
  | responded (d : Delivery) (loaded : Notification) (result : ProviderResult)
  | finished (d : Delivery)
  | failing (d : Delivery)
  deriving DecidableEq, Repr

/-- An attempt in flight: the instance that `reserve` returned, the payload of the message
being processed, whether the provider has been called, and what it has answered. -/
structure Flight where
  loaded : Notification
  payload : Payload
  called : Bool := false
  result : Option ProviderResult := none
  deriving DecidableEq, Repr

/-- `f'` is the attempt `f`, perhaps with an answer. -/
def Flight.Continues (f f' : Flight) : Prop :=
  f'.loaded = f.loaded ∧ f'.payload = f.payload ∧ f'.called = f.called

namespace Worker

/-- The message that the worker holds. -/
def delivery? : Worker → Option Delivery
  | .idle => none
  | .received d | .finished d | .failing d => some d
  | .reserved d _ | .calling d _ | .responded d _ _ => some d

/-- The attempt in flight: reserved and not yet applied. -/
def flight? : Worker → Option Flight
  | .reserved d n => some { loaded := n, payload := d.message.payload }
  | .calling d n => some { loaded := n, payload := d.message.payload, called := true }
  | .responded d n r =>
    some { loaded := n, payload := d.message.payload, called := true, result := some r }
  | _ => none

/-- The worker after its connection to the broker was lost. -/
def disconnected : Worker → Worker
  | .idle => .idle
  | .received d => .received { d with live := false }
  | .reserved d n => .reserved { d with live := false } n
  | .calling d n => .calling { d with live := false } n
  | .responded d n r => .responded { d with live := false } n r
  | .finished d => .finished { d with live := false }
  | .failing d => .failing { d with live := false }

end Worker

/-- Where a publisher stands in `publish_pending` and `_publish_one`. -/
inductive Publisher
  | idle
  | working (todo : List ClaimedOutboxEvent)
  | loaded (e : ClaimedOutboxEvent) (row : OutboxEvent) (todo : List ClaimedOutboxEvent)
  | published (row : OutboxEvent) (todo : List ClaimedOutboxEvent)
  | raised (row : OutboxEvent) (error : String) (todo : List ClaimedOutboxEvent)
  deriving DecidableEq, Repr

/-- How a `create_bulk` ends. -/
inductive Outcome
  | accepted (response : BulkNotificationResponse)
  | alreadyExists (response : BulkNotificationResponse)
  | conflict
  | inProgress
  | raised
  | crashed
  deriving DecidableEq, Repr

/-- Where a request stands in `create_bulk`. -/
inductive RequestPhase
  | locked
  | reserved (reservation : Reservation)
  | rolledBack
  | releasing (outcome : Outcome)
  | deleting (outcome : Outcome)
  | done (outcome : Outcome)
  deriving DecidableEq, Repr

structure Request where
  body : BulkNotificationRequest
  key : String
  phase : RequestPhase

/-- A call of `provider.send`. `attempt` is the instance's attempt count, which the provider
is not told. -/
structure ProviderCall where
  recipientId : Int
  message : String
  idempotencyKey : Uuid
  attempt : Nat
  deriving DecidableEq, Repr

/-- A call of `publish_outbox_event`, with its time and whether it raised. -/
structure PublishCall where
  event : Uuid
  time : Time
  raised : Bool
  deriving DecidableEq, Repr

structure State where
  now : Time
  store : Store
  broker : Broker
  redis : String → Option Nat
  workers : Nat → Worker
  publishers : Nat → Publisher
  requests : Nat → Option Request
  cleaners : Nat → Option (List IdempotencyKey)
  calls : List ProviderCall
  publishes : List PublishCall
  processed : List Message

/-- Nothing has happened yet. -/
def State.initial (now : Time) : State where
  now := now
  store := .empty
  broker := .empty
  redis := fun _ => none
  workers := fun _ => .idle
  publishers := fun _ => .idle
  requests := fun _ => none
  cleaners := fun _ => none
  calls := []
  publishes := []
  processed := []

namespace State

def setWorker (s : State) (w : Nat) (x : Worker) : State :=
  { s with workers := Function.update s.workers w x }

def setPublisher (s : State) (p : Nat) (x : Publisher) : State :=
  { s with publishers := Function.update s.publishers p x }

def setRequest (s : State) (q : Nat) (x : Request) : State :=
  { s with requests := Function.update s.requests q (some x) }

end State

/-! ## Workers -/

inductive WorkerAction
  | get (queue : QueueName) (message : Message)
  | reserve (t₁ t₂ t₃ : Time) (ids : EventIds)
  | send
  | answer (result : ProviderResult)
  | sendRaises (error : String)
  | apply (t₁ t₂ : Time) (ids : EventIds)
  | ack
  | reject (dead : Bool)
  | crash (dead : Bool)
  | disconnect (dead : Bool)
  deriving DecidableEq, Repr

/-- The broker after an unacked delivery has come back to it. -/
def Delivery.giveBack (d : Delivery) (b : Broker) (dead : Bool) : Broker :=
  if d.live then b.giveBack d.queue d.message dead else b

/-- The result that stands for an exception of the provider. -/
def exceptionResult (error : String) : ProviderResult where
  success := false
  delivered := false
  errorType := some .temporary
  errorMessage := some error

/-- The call that `_send_to_provider` makes. -/
def providerCall (n : Notification) : ProviderCall := ⟨n.subscriberId, n.message, n.id, n.attempts⟩

/-- The state after `reserve` has returned or raised. -/
def afterReserve (s : State) (w : Nat) (d : Delivery) (t : Time) :
    Except Raised (Store × Option Notification) → State
  | .error _ => { s.setWorker w (.failing d) with now := t }
  | .ok (store, none) =>
    { s.setWorker w (.finished d) with
      now := t
      store
      processed := s.processed ++ [d.message] }
  | .ok (store, some n) => { s.setWorker w (.reserved d n) with now := t, store }

/-- The state after `apply` has returned or raised. -/
def afterApply (s : State) (w : Nat) (d : Delivery) (t : Time) : Except Raised Store → State
  | .error _ => { s.setWorker w (.failing d) with now := t }
  | .ok store =>
    { s.setWorker w (.finished d) with
      now := t
      store
      processed := s.processed ++ [d.message] }

def workerStep (env : Deployment) (s : State) (w : Nat) : WorkerAction → Option State
  | .get queue message =>
    match s.workers w with
    | .idle =>
      if queue ≠ .dlq ∧ message ∈ s.broker.queues queue then
        some { s.setWorker w (.received ⟨message, queue, true⟩) with
          broker := s.broker.take queue message }
      else none
    | _ => none
  | .reserve t₁ t₂ t₃ ids =>
    match s.workers w with
    | .received d =>
      if s.now ≤ t₁ ∧ t₁ ≤ t₂ ∧ t₂ ≤ t₃ ∧ s.store.Fresh [ids.eventId, ids.rowId] then
        some (afterReserve s w d t₃
          (reserve env.toSettings s.store d.message.payload.notificationId d.message.payload
            t₁ t₂ t₃ ids))
      else none
    | _ => none
  | .send =>
    match s.workers w with
    | .reserved d n =>
      some { s.setWorker w (.calling d n) with calls := s.calls ++ [providerCall n] }
    | _ => none
  | .answer result =>
    match s.workers w with
    | .calling d n => some (s.setWorker w (.responded d n result))
    | _ => none
  | .sendRaises error =>
    match s.workers w with
    | .calling d n => some (s.setWorker w (.responded d n (exceptionResult error)))
    | _ => none
  | .apply t₁ t₂ ids =>
    match s.workers w with
    | .responded d n result =>
      if s.now ≤ t₁ ∧ t₁ ≤ t₂ ∧ s.store.Fresh [ids.eventId, ids.rowId] then
        some (afterApply s w d t₂
          (apply env.toSettings s.store d.message.payload.notificationId d.message.payload n
            result t₁ t₂ ids))
      else none
    | _ => none
  | .ack =>
    match s.workers w with
    | .finished _ => some (s.setWorker w .idle)
    | _ => none
  | .reject dead =>
    match s.workers w with
    | .failing d => some { s.setWorker w .idle with broker := d.giveBack s.broker dead }
    | _ => none
  | .crash dead =>
    match (s.workers w).delivery? with
    | some d => some { s.setWorker w .idle with broker := d.giveBack s.broker dead }
    | none => none
  | .disconnect dead =>
    match (s.workers w).delivery? with
    | some d =>
      some { s.setWorker w (s.workers w).disconnected with broker := d.giveBack s.broker dead }
    | none => none

/-! ## Publishers -/

inductive PublisherAction
  | claim (t₁ t₂ t₃ : Time) (locked : List Uuid)
  | load
  | publish
  | publishRaises (error : String) (accepted : Bool)
  | record (t : Time)
  | done
  | crash
  deriving DecidableEq, Repr

/-- The message of a claimed event. -/
def ClaimedOutboxEvent.message (e : ClaimedOutboxEvent) : Message := ⟨e.id, e.eventType, e.payload⟩

/-- The broker after a publish call that raised: it may have accepted the message all the
same, where there is a queue for it. -/
def afterRaise (b : Broker) (e : ClaimedOutboxEvent) (accepted : Bool) : Broker :=
  match publishOutboxEvent e.eventType e.payload with
  | some queue => if accepted then b.push queue e.message else b
  | none => b

def publisherStep (env : Deployment) (s : State) (p : Nat) : PublisherAction → Option State
  | .claim t₁ t₂ t₃ locked =>
    match s.publishers p with
    | .idle =>
      if s.now ≤ t₁ ∧ t₁ ≤ t₂ ∧ t₂ ≤ t₃ then
        (claimPending env.toSettings s.store t₁ t₂ t₃ locked).map fun (store, events) =>
          { s.setPublisher p (.working events) with now := t₃, store }
      else none
    | _ => none
  | .load =>
    match s.publishers p with
    | .working (e :: todo) =>
      match s.store.outbox.get e.id with
      | none => some (s.setPublisher p (.working todo))
      | some row => some (s.setPublisher p (.loaded e row todo))
    | _ => none
  | .publish =>
    match s.publishers p with
    | .loaded e row todo =>
      (publishOutboxEvent e.eventType e.payload).map fun queue =>
        { s.setPublisher p (.published row todo) with
          broker := s.broker.push queue e.message
          publishes := s.publishes ++ [⟨e.id, s.now, false⟩] }
    | _ => none
  | .publishRaises error accepted =>
    match s.publishers p with
    | .loaded e row todo =>
      some { s.setPublisher p (.raised row error todo) with
        broker := afterRaise s.broker e accepted
        publishes := s.publishes ++ [⟨e.id, s.now, true⟩] }
    | _ => none
  | .record t =>
    if s.now ≤ t then
      match s.publishers p with
      | .published row todo =>
        some { s.setPublisher p (.working todo) with
          now := t
          store := s.store.saveOutboxEvent row (row.markPublished t) }
      | .raised row error todo =>
        some { s.setPublisher p (.working todo) with
          now := t
          store := s.store.saveOutboxEvent row (row.markPublishFailed env.toSettings error) }
      | _ => none
    else none
  | .done =>
    match s.publishers p with
    | .working [] => some (s.setPublisher p .idle)
    | _ => none
  | .crash => some (s.setPublisher p .idle)

/-! ## Requests -/

inductive RequestAction
  | submit (body : BulkNotificationRequest) (key : String)
  | read (t₁ t₂ : Time)
  | commit (ids : Nat → Uuid) (stamps : Nat → Time)
  | find
  | abort
  | getLock
  | deleteLock
  | crash

/-- The phase after `reserve_or_get`. -/
def afterRead : Except NotReserved Reservation → RequestPhase
  | .ok reservation => .reserved reservation
  | .error .conflict => .releasing .conflict
  | .error (.recordExists response) => .releasing (.alreadyExists (alreadyExists response))
  | .error .overflow => .releasing .raised

/-- The phase after a rolled back insert has looked for the record again. -/
def afterFind (requestHash : String) : Option IdempotencyKey → RequestPhase
  | none => .releasing .inProgress
  | some existing =>
    if existing.requestHash ≠ requestHash then .releasing .conflict
    else
      match existing.responsePayload with
      | none => .releasing .inProgress
      | some response => .releasing (.alreadyExists (alreadyExists response))

/-- The state after the transaction of a request has committed or raised. -/
def afterCommit (s : State) (q : Nat) (r : Request) :
    Except Raised (Store × BulkNotificationResponse) → State
  | .ok (store, response) =>
    { s.setRequest q { r with phase := .releasing (.accepted response) } with store }
  | .error .integrityError => s.setRequest q { r with phase := .rolledBack }
  | .error _ => s.setRequest q { r with phase := .releasing .raised }

/-- The steps of a request that has begun. The lock token of request `q` is `q`. -/
def activeRequestStep (env : Deployment) (s : State) (q : Nat) (r : Request) :
    RequestAction → Option State
  | .submit _ _ => none
  | .read t₁ t₂ =>
    if r.phase = .locked ∧ s.now ≤ t₁ ∧ t₁ ≤ t₂ then
      some { s.setRequest q { r with
        phase := afterRead
          (reserveOrGet env.toSettings s.store r.key (env.requestHash r.body) t₁ t₂) } with
        now := t₂ }
    else none
  | .commit ids stamps =>
    match r.phase with
    | .reserved reservation =>
      if s.store.Fresh (bulkIds ids (distinctRecipients r.body.recipientIds).length) ∧
          ∀ row ∈ newHistory r.body ids stamps, row.createdAt ≤ s.now then
        match commitBulk s.store r.body r.key (env.requestHash r.body) reservation ids stamps with
        | .error .dataError => none  -- the database aborts this transaction: `abort`
        | result => some (afterCommit s q r result)
      else none
    | _ => none
  | .find =>
    if r.phase = .rolledBack then
      some (s.setRequest q { r with
        phase := afterFind (env.requestHash r.body) (findRecord s.store r.key) })
    else none
  | .abort =>
    match r.phase with
    | .locked | .reserved _ | .rolledBack =>
      some (s.setRequest q { r with phase := .releasing .raised })
    | _ => none
  | .getLock =>
    match r.phase with
    | .releasing outcome =>
      if s.redis r.key = some q then some (s.setRequest q { r with phase := .deleting outcome })
      else some (s.setRequest q { r with phase := .done outcome })
    | _ => none
  | .deleteLock =>
    match r.phase with
    | .deleting outcome =>
      some { s.setRequest q { r with phase := .done outcome } with
        redis := Function.update s.redis r.key none }
    | _ => none
  | .crash =>
    match r.phase with
    | .done _ => none
    | _ => some (s.setRequest q { r with phase := .done .crashed })

/-- A request begins with `SET NX` on the lock of its key. -/
def requestStep (env : Deployment) (s : State) (q : Nat) (a : RequestAction) : Option State :=
  match s.requests q with
  | some r => activeRequestStep env s q r a
  | none =>
    match a with
    | .submit body key =>
      match s.redis key with
      | none =>
        some { s.setRequest q ⟨body, key, .locked⟩ with
          redis := Function.update s.redis key (some q) }
      | some _ => some (s.setRequest q ⟨body, key, .done .inProgress⟩)
    | _ => none

/-! ## Cleaners -/

inductive CleanerAction
  | select (t₁ : Time)
  | delete (t₂ : Time)
  | crash
  deriving DecidableEq, Repr

def cleanerStep (s : State) (c : Nat) : CleanerAction → Option State
  | .select t₁ =>
    if s.cleaners c = none ∧ s.now ≤ t₁ then
      some { s with
        now := t₁
        cleaners := Function.update s.cleaners c (some (expiredRecords s.store t₁)) }
    else none
  | .delete t₂ =>
    match s.cleaners c with
    | some selected =>
      if s.now ≤ t₂ then
        some { s with
          now := t₂
          store := deleteExpired s.store selected t₂
          cleaners := Function.update s.cleaners c none }
      else none
    | none => none
  | .crash => some { s with cleaners := Function.update s.cleaners c none }

/-! ## The machine -/

inductive Action
  | tick (t : Time)
  | worker (w : Nat) (a : WorkerAction)
  | publisher (p : Nat) (a : PublisherAction)
  | request (q : Nat) (a : RequestAction)
  | cleaner (c : Nat) (a : CleanerAction)
  | redisExpire (key : String)

def step (env : Deployment) (s : State) : Action → Option State
  | .tick t => if s.now ≤ t then some { s with now := t } else none
  | .worker w a => workerStep env s w a
  | .publisher p a => publisherStep env s p a
  | .request q a => requestStep env s q a
  | .cleaner c a => cleanerStep s c a
  | .redisExpire key => some { s with redis := Function.update s.redis key none }

/-- The notification service as a transition system. -/
def machine (env : Deployment) : Machine State Action where
  init s := ∃ now, s = State.initial now
  step := step env

/-! ## A sample run -/

namespace Sample

def env : Deployment where
  sha256 := fun _ => ""

/-- A deployment that never calls a provider. -/
def noRetries : Deployment := { env with maxRetries := 0 }

/-- A deployment that makes one attempt. -/
def oneAttempt : Deployment := { env with maxRetries := 1 }

/-- A deployment that gives an event up after one failed publish. -/
def impatient : Deployment := { env with outboxMaxAttempts := 1 }

/-- A deployment whose `retry_backoff_seconds` is empty. -/
def noBackoff : Deployment := { env with retryBackoffList := [] }

/-- A deployment whose lock at time 0 ends with the last second of the `datetime` range. -/
def longLocks : Deployment := { env with processingLockTtlSeconds := 253402300799 }

def request : BulkNotificationRequest where
  channel := .sms
  type := .transactional
  message := "hello"
  recipientIds := [7]
  message_length := by decide
  recipientIds_length := by decide

/-- A request that names a recipient twice. -/
def repeated : BulkNotificationRequest where
  channel := .email
  type := .marketing
  message := "hello again"
  recipientIds := [7, 8, 7]
  message_length := by decide
  recipientIds_length := by decide

/-- A time in seconds. -/
def sec (n : Int) : Time := n * 1000000

/-- One notification, with id 1, is created under the key `"key"`. -/
def creation : List Action :=
  [.request 0 (.submit request "key"), .request 0 (.read 0 0),
    .request 0 (.commit id fun _ => 0)]

/-- Its created event, with id 3, is published. -/
def publication : List Action :=
  [.publisher 0 (.claim 0 0 0 []), .publisher 0 .load, .publisher 0 .publish,
    .publisher 0 (.record 0)]

/-- The message of the created event. -/
def message : Message := ⟨3, .created, (createdEvent request id (fun _ => 0) 0 7).payload⟩

/-- The message is delivered to worker 0, which reserves the first attempt at time 0. -/
def attempt : List Action :=
  creation ++ publication ++
    [.worker 0 (.get .high message), .worker 0 (.reserve 0 0 0 ⟨4, 5⟩)]

def deliveredResult : ProviderResult where
  success := true
  delivered := true
  providerMessageId := some "provider-id"

/-- The provider has accepted the message and has not delivered it yet. -/
def acceptedResult : ProviderResult where
  success := true
  delivered := false
  providerMessageId := some "provider-id"

def temporaryError : ProviderResult where
  success := false
  delivered := false
  errorType := some .temporary
  errorMessage := some "provider is unavailable"

def permanentError : ProviderResult where
  success := false
  delivered := false
  errorType := some .permanent
  errorMessage := some "number is unreachable"

example : (((machine env).exec (.initial 0) (creation ++ publication)).map fun s =>
    s.broker.queues .high) = some [message] := by decide

end Sample

end NotificationSystem
