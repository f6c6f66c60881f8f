import NotificationSystem.Lib.Table

/-!
# The database and the settings

The tables of `app/db/models.py`, the payload of an outbox event, the provider's answer and
the settings the code reads. The `updated_at` stamps, which only the API's output shows, are left
out.

A `Time` counts microseconds; `addSeconds` is `utcnow() + timedelta(seconds=…)`, which raises
when the result is not a `datetime`.
-/

namespace NotificationSystem

open Lib

/-- A `uuid.UUID`. -/
abbrev Uuid := Nat

/-- A `datetime`, in microseconds since the epoch. -/
abbrev Time := Int

/-- `datetime.min`, in microseconds. -/
def datetimeMin : Time := -62135596800000000

/-- `datetime.max`, in microseconds. -/
def datetimeMax : Time := 253402300799999999

/-- `t + timedelta(seconds=s)`; `none` is the `OverflowError`. -/
def addSeconds (t : Time) (s : Int) : Option Time :=
  if datetimeMin ≤ t + s * 1000000 ∧ t + s * 1000000 ≤ datetimeMax then
    some (t + s * 1000000)
  else none

theorem addSeconds_eq_some {t t' : Time} {s : Int} (h : addSeconds t s = some t') :
    t' = t + s * 1000000 := by
  unfold addSeconds at h
  split at h
  · exact (Option.some.inj h).symm
  · cases h

/-- The exceptions that the modelled code raises. -/
inductive Raised
  | overflowError
  | indexError
  | multipleResultsFound
  | noResultFound
  | staleData
  | integrityError
  | dataError
  deriving DecidableEq, Repr

/-! ## Enumerations -/

inductive NotificationChannel
  | sms
  | email
  deriving DecidableEq, Repr

inductive NotificationType
  | transactional
  | marketing
  deriving DecidableEq, Repr

inductive NotificationStatus
  | queued
  | sent
  | delivered
  | dropped
  deriving DecidableEq, Repr

inductive ProviderErrorType
  | temporary
  | permanent
  deriving DecidableEq, Repr

inductive OutboxStatus
  | pending
  | processing
  | published
  | failed
  deriving DecidableEq, Repr

/-- The `event_type` column: the three types the publisher supports, and any other string. -/
inductive EventType
  | created
  | retryScheduled
  | failed
  | other (name : String)
  deriving DecidableEq, Repr

/-! ## Rows -/

structure NotificationBatch where
  id : Uuid
  channel : NotificationChannel
  type : NotificationType
  message : String
  idempotencyKey : Option String
  requestHash : Option String
  deriving DecidableEq, Repr

structure Notification where
  id : Uuid
  batchId : Uuid
  subscriberId : Int
  channel : NotificationChannel
  type : NotificationType
  message : String
  status : NotificationStatus := .queued
  attempts : Nat := 0
  providerMessageId : Option String := none
  lastError : Option String := none
  processingLockUntil : Option Time := none
  createdAt : Time
  deriving DecidableEq, Repr

structure NotificationStatusHistory where
  notificationId : Uuid
  status : NotificationStatus
  errorMessage : Option String := none
  createdAt : Time
  deriving DecidableEq, Repr

/-- `BulkNotificationResponse`, which is also the stored `response_payload`. -/
structure BulkNotificationResponse where
  batchId : Uuid
  status : String
  notificationsCreated : Nat
  deriving DecidableEq, Repr

structure IdempotencyKey where
  key : String
  requestHash : String
  batchId : Option Uuid := none
  responsePayload : Option BulkNotificationResponse := none
  expiresAt : Time
  deriving DecidableEq, Repr

/-- The JSON object that an outbox event carries. The last three keys are optional. -/
structure Payload where
  eventId : Uuid
  notificationId : Uuid
  batchId : Uuid
  subscriberId : Int
  channel : NotificationChannel
  type : NotificationType
  attempt : Nat
  createdAt : Time
  routingKey : String
  retryDelaySeconds : Option Int := none
  errorMessage : Option String := none
  deferredReason : Option String := none
  deriving DecidableEq, Repr

structure OutboxEvent where
  id : Uuid
  aggregateType : String := "notification"
  aggregateId : Uuid
  eventType : EventType
  payload : Payload
  status : OutboxStatus := .pending
  attempts : Nat := 0
  lastError : Option String := none
  createdAt : Time
  availableAt : Option Time := none
  lockedAt : Option Time := none
  publishedAt : Option Time := none
  deriving DecidableEq, Repr

/-- What a provider answers. -/
structure ProviderResult where
  success : Bool
  delivered : Bool
  providerMessageId : Option String := none
  errorType : Option ProviderErrorType := none
  errorMessage : Option String := none
  deriving DecidableEq, Repr

/-- A validated `BulkNotificationRequest`. -/
structure BulkNotificationRequest where
  channel : NotificationChannel
  type : NotificationType
  message : String
  recipientIds : List Int
  message_length : 1 ≤ message.length ∧ message.length ≤ 4000
  recipientIds_length : 1 ≤ recipientIds.length ∧ recipientIds.length ≤ 10000

/-! ## What the columns hold

PostgreSQL refuses a value that its column cannot hold, and the transaction raises. -/

/-- The value of a `Text` column: any text without a NUL. -/
def storableText (s : String) : Bool := s.toList.all (· ≠ Char.ofNat 0)

/-- The value of a `String(n)` column. -/
def storableString (n : Nat) (s : String) : Bool := s.toList.length ≤ n && storableText s

/-- The value of an `INTEGER` column. -/
def storableInteger (i : Int) : Bool := -2147483648 ≤ i && i ≤ 2147483647

/-! ## Settings -/

/-- The settings that the modelled code reads; `retryBackoffList` is the parsed
`retry_backoff_seconds`. -/
structure Settings where
  maxRetries : Int := 3
  retryBackoffList : List Int := [10, 30, 60]
  idempotencyTtlSeconds : Int := 86400
  processingLockTtlSeconds : Int := 60
  outboxClaimTimeoutSeconds : Int := 300
  outboxBatchSize : Nat := 100
  outboxMaxAttempts : Int := 5
  outboxBatchSize_bounds : 1 ≤ outboxBatchSize ∧ outboxBatchSize ≤ 1000 := by decide

/-! ## The store -/

/-- The committed state of the database. The history is in commit order. -/
structure Store where
  batches : Table NotificationBatch.id
  notifications : Table Notification.id
  history : List NotificationStatusHistory
  idempotencyKeys : Table IdempotencyKey.key
  outbox : Table OutboxEvent.id

/-- The migrated, empty database. -/
def Store.empty : Store := ⟨.empty, .empty, [], .empty, .empty⟩

/-- Every uuid that the rows mention. -/
def Store.uuids (st : Store) : List Uuid :=
  st.batches.rows.map (·.id) ++ st.notifications.rows.map (·.id) ++
    st.notifications.rows.map (·.batchId) ++ st.outbox.rows.map (·.id) ++
      st.outbox.rows.map (·.payload.eventId)

/-- What `uuid.uuid4()` may return: pairwise different values that no row mentions. -/
def Store.Fresh (st : Store) (ids : List Uuid) : Prop := ids.Nodup ∧ ∀ i ∈ ids, i ∉ st.uuids

instance (st : Store) (ids : List Uuid) : Decidable (st.Fresh ids) := by
  unfold Store.Fresh; infer_instance

namespace Notification

/-- `_is_final`. -/
def isFinal (n : Notification) : Bool := n.status = .delivered || n.status = .dropped

/-- What a session that loaded `loaded` and left `updated` writes over the stored row. -/
def writeBack (loaded updated stored : Notification) : Notification :=
  { stored with
    status := writeColumn loaded.status updated.status stored.status
    attempts := writeColumn loaded.attempts updated.attempts stored.attempts
    providerMessageId :=
      writeColumn loaded.providerMessageId updated.providerMessageId stored.providerMessageId
    lastError := writeColumn loaded.lastError updated.lastError stored.lastError
    processingLockUntil :=
      writeColumn loaded.processingLockUntil updated.processingLockUntil
        stored.processingLockUntil }

theorem writeBack_id (loaded updated stored : Notification) :
    (writeBack loaded updated stored).id = stored.id := rfl

end Notification

/-- The `UPDATE` of a notification at the end of a session. -/
def Store.saveNotification (st : Store) (loaded updated : Notification) : Store :=
  { st with
    notifications := st.notifications.modify loaded.id (Notification.writeBack loaded updated)
      (Notification.writeBack_id loaded updated) }

/-- `session.add(NotificationStatusHistory(...))`, committed. -/
def Store.addHistory (st : Store) (row : NotificationStatusHistory) : Store :=
  { st with history := st.history ++ [row] }

/-! ## Lemmas -/

section lemmas

variable {st : Store} {loaded updated n : Notification} {row : NotificationStatusHistory}
  {id : Uuid}

@[simp] theorem addHistory_notifications :
    (st.addHistory row).notifications = st.notifications := rfl

@[simp] theorem addHistory_outbox : (st.addHistory row).outbox = st.outbox := rfl

@[simp] theorem addHistory_history : (st.addHistory row).history = st.history ++ [row] := rfl

@[simp] theorem saveNotification_outbox :
    (st.saveNotification loaded updated).outbox = st.outbox := rfl

@[simp] theorem saveNotification_history :
    (st.saveNotification loaded updated).history = st.history := rfl

theorem get_saveNotification :
    (st.saveNotification loaded updated).notifications.get id =
      if id = loaded.id then (st.notifications.get id).map (Notification.writeBack loaded updated)
      else st.notifications.get id :=
  Table.get_modify (Notification.writeBack_id loaded updated)

end lemmas

end NotificationSystem
