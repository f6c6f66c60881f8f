import NotificationSystem.Hashing
import NotificationSystem.Outbox

/-!
# Idempotency and bulk creation

`IdempotencyService` and the transaction of `NotificationService.create_bulk`. The
transaction is modelled in the two halves that other transactions can come between: `reserveOrGet`
reads the idempotency record, and `commitBulk` writes. The database isolates neither half
from commits in between, but it evaluates the constraints on what it then holds.
-/

namespace NotificationSystem

open Lib

/-- What is fixed for every process of a deployment. -/
structure Deployment extends Settings where
  sha256 : ByteArray → String

/-- The `request_hash` of a request. -/
def Deployment.requestHash (env : Deployment) (request : BulkNotificationRequest) : String :=
  canonicalJsonHash env.sha256 request.modelDump

/-! ## Reading the record -/

/-- `_is_expired`. -/
def IdempotencyKey.isExpired (r : IdempotencyKey) (now : Time) : Bool := r.expiresAt ≤ now

/-- What `reserve_or_get` leaves in the session: a new record to be inserted, with the
expired record it replaces, or a stored record without a response. -/
inductive Reservation
  | newRecord (expired : Option IdempotencyKey) (expiresAt : Time)
  | existing (record : IdempotencyKey)
  deriving DecidableEq, Repr

/-- How `reserve_or_get` may end instead. -/
inductive NotReserved
  | conflict
  | recordExists (responsePayload : BulkNotificationResponse)
  | overflow
  deriving DecidableEq, Repr

/-- The last part of `reserve_or_get`: the record is new, at the reading `t₂`. -/
def newRecord (cfg : Settings) (expired : Option IdempotencyKey) (t₂ : Time) :
    Except NotReserved Reservation :=
  match addSeconds t₂ cfg.idempotencyTtlSeconds with
  | none => .error .overflow
  | some expiresAt => .ok (.newRecord expired expiresAt)

/-- `reserve_or_get`; `_is_expired` reads the clock at `t₁`. -/
def reserveOrGet (cfg : Settings) (st : Store) (key requestHash : String) (t₁ t₂ : Time) :
    Except NotReserved Reservation :=
  match st.idempotencyKeys.get key with
  | none => newRecord cfg none t₂
  | some existing =>
    if existing.isExpired t₁ then newRecord cfg (some existing) t₂
    else if existing.requestHash ≠ requestHash then .error .conflict
    else
      match existing.responsePayload with
      | some response => .error (.recordExists response)
      | none => .ok (.existing existing)

/-- `find`. -/
def findRecord (st : Store) (key : String) : Option IdempotencyKey := st.idempotencyKeys.get key

/-! ## Writing -/

/-- `batch.idempotency_key = None`, for the batch of an expired record. A batch's key is never
set again, so it does not matter when the batch was loaded. -/
def releaseBatchKey (st : Store) (record : IdempotencyKey) : Store :=
  match record.batchId with
  | none => st
  | some batchId =>
    { st with
      batches := st.batches.modify batchId (fun b => { b with idempotencyKey := none })
        fun _ => rfl }

/-- The flush that removes an expired record and frees its key. -/
def removeExpired (st : Store) (record : IdempotencyKey) : Store :=
  let st' := releaseBatchKey st record
  { st' with idempotencyKeys := st'.idempotencyKeys.keep fun r => r.key ≠ record.key }

/-- `list(dict.fromkeys(recipient_ids))`: the first occurrences, in order. -/
def distinctRecipients (recipientIds : List Int) : List Int := recipientIds.eraseDups

/-- The uuids of a bulk creation: the batch's, and three for each recipient. -/
def bulkIds (ids : Nat → Uuid) (recipients : Nat) : List Uuid :=
  (List.range (3 * recipients + 1)).map ids

section rows

variable (request : BulkNotificationRequest) (ids : Nat → Uuid) (stamps : Nat → Time)

/-- The notification of the `i`-th recipient. -/
def newNotification (i : Nat) (recipientId : Int) : Notification where
  id := ids (3 * i + 1)
  batchId := ids 0
  subscriberId := recipientId
  channel := request.channel
  type := request.type
  message := request.message
  status := .queued
  createdAt := stamps (4 * i)

/-- Its `notification.created` event. -/
def createdEvent (i : Nat) (recipientId : Int) : OutboxEvent where
  id := ids (3 * i + 3)
  aggregateId := ids (3 * i + 1)
  eventType := .created
  payload :=
    notificationPayload (ids (3 * i + 2)) (newNotification request ids stamps i recipientId) 1
      (stamps (4 * i + 1)) (routingKeyForNotificationType request.type) none
  createdAt := stamps (4 * i + 2)

/-- The notifications of a request, one for each distinct recipient. -/
def newNotifications : List Notification :=
  (distinctRecipients request.recipientIds).mapIdx (newNotification request ids stamps)

/-- The first history row of each. -/
def newHistory : List NotificationStatusHistory :=
  (distinctRecipients request.recipientIds).mapIdx fun i _ =>
    ⟨ids (3 * i + 1), .queued, none, stamps (4 * i + 3)⟩

/-- The created event of each. -/
def newEvents : List OutboxEvent :=
  (distinctRecipients request.recipientIds).mapIdx (createdEvent request ids stamps)

end rows

/-- The stored response of a new batch. -/
def acceptedResponse (batchId : Uuid) (request : BulkNotificationRequest) :
    BulkNotificationResponse :=
  ⟨batchId, "accepted", (distinctRecipients request.recipientIds).length⟩

/-- The unique constraint on `notification_batches.idempotency_key`. -/
def uniqueBatchKeys (batches : Table NotificationBatch.id) : Prop :=
  (batches.rows.filterMap (·.idempotencyKey)).Nodup

/-- The unique constraint on `(batch_id, subscriber_id)`. -/
def uniquePerBatchSubscriber (notifications : Table Notification.id) : Prop :=
  (notifications.rows.map fun n => (n.batchId, n.subscriberId)).Nodup

instance (t : Table NotificationBatch.id) : Decidable (uniqueBatchKeys t) := by
  unfold uniqueBatchKeys; infer_instance

instance (t : Table Notification.id) : Decidable (uniquePerBatchSubscriber t) := by
  unfold uniquePerBatchSubscriber; infer_instance

/-- The columns of the record and the batch hold the key and the message. -/
def storableBatch (request : BulkNotificationRequest) (key : String) : Bool :=
  storableString 255 key && storableText request.message

/-- Put the record in the table: the `INSERT` of a new one, the `UPDATE` of a stored one. -/
def writeRecord (st : Store) (reservation : Reservation) (key requestHash : String)
    (response : BulkNotificationResponse) : Except Raised Store :=
  match reservation with
  | .newRecord expired expiresAt =>
    let st' := match expired with
      | none => st
      | some record => removeExpired st record
    match st'.idempotencyKeys.insert?
        ⟨key, requestHash, some response.batchId, some response, expiresAt⟩ with
    | none => .error .integrityError
    | some idempotencyKeys => .ok { st' with idempotencyKeys }
  | .existing record =>
    match st.idempotencyKeys.get record.key with
    | none => .error .staleData
    | some _ =>
      .ok { st with
        idempotencyKeys := st.idempotencyKeys.modify record.key
          (fun r => { r with
            batchId := writeColumn record.batchId (some response.batchId) r.batchId
            responsePayload :=
              writeColumn record.responsePayload (some response) r.responsePayload })
          fun _ => rfl }

/-- The writes of `create_bulk` from its reservation to its commit: the record, the batch, then
the rows of the recipients. A violated constraint is an `IntegrityError`, and a value that a column
cannot hold another error; both roll everything back. -/
def commitBulk (st : Store) (request : BulkNotificationRequest) (key requestHash : String)
    (reservation : Reservation) (ids : Nat → Uuid) (stamps : Nat → Time) :
    Except Raised (Store × BulkNotificationResponse) :=
  let response := acceptedResponse (ids 0) request
  match writeRecord st reservation key requestHash response with
  | .error e => .error e
  | .ok st =>
    if storableBatch request key = false then .error .dataError
    else
      match st.batches.insert?
          ⟨ids 0, request.channel, request.type, request.message, some key, some requestHash⟩,
        st.notifications.insertAll? (newNotifications request ids stamps),
        st.outbox.insertAll? (newEvents request ids stamps) with
      | some batches, some notifications, some outbox =>
        if ¬ (uniqueBatchKeys batches ∧ uniquePerBatchSubscriber notifications) then
          .error .integrityError
        else if request.recipientIds.all storableInteger = false then .error .dataError
        else
          .ok ({ st with
            batches
            notifications
            outbox
            history := st.history ++ newHistory request ids stamps }, response)
      | _, _, _ => .error .integrityError

/-- The response to a repeated request. -/
def alreadyExists (response : BulkNotificationResponse) : BulkNotificationResponse :=
  { response with status := "already_exists" }

/-! ## Cleaning up -/

/-- The records that `cleanup_expired` selects. -/
def expiredRecords (st : Store) (now : Time) : List IdempotencyKey :=
  st.idempotencyKeys.rows.filter (·.isExpired now)

/-- The writes of `cleanup_expired`: the keys of the selected records' batches are freed, and
every record that has expired at the second reading is deleted. -/
def deleteExpired (st : Store) (selected : List IdempotencyKey) (now : Time) : Store :=
  let st' := selected.foldl releaseBatchKey st
  { st' with idempotencyKeys := st'.idempotencyKeys.keep fun r => !r.isExpired now }

/-! ## Frame lemmas

Only a commit touches the notifications, their history and the outbox. -/

section frame

variable {st : Store} {record : IdempotencyKey} {selected : List IdempotencyKey} {now : Time}

@[simp] theorem releaseBatchKey_notifications :
    (releaseBatchKey st record).notifications = st.notifications := by
  unfold releaseBatchKey; split <;> rfl

@[simp] theorem releaseBatchKey_history :
    (releaseBatchKey st record).history = st.history := by
  unfold releaseBatchKey; split <;> rfl

@[simp] theorem releaseBatchKey_outbox : (releaseBatchKey st record).outbox = st.outbox := by
  unfold releaseBatchKey; split <;> rfl

@[simp] theorem releaseBatchKey_idempotencyKeys :
    (releaseBatchKey st record).idempotencyKeys = st.idempotencyKeys := by
  unfold releaseBatchKey; split <;> rfl

theorem foldl_releaseBatchKey {α : Type*} (f : Store → α)
    (hf : ∀ st record, f (releaseBatchKey st record) = f st) :
    f (selected.foldl releaseBatchKey st) = f st := by
  induction selected generalizing st with
  | nil => rfl
  | cons record rest ih => rw [List.foldl_cons, ih, hf]

@[simp] theorem deleteExpired_notifications :
    (deleteExpired st selected now).notifications = st.notifications :=
  foldl_releaseBatchKey (·.notifications) fun _ _ => by simp

@[simp] theorem deleteExpired_history : (deleteExpired st selected now).history = st.history :=
  foldl_releaseBatchKey (·.history) fun _ _ => by simp

@[simp] theorem deleteExpired_outbox : (deleteExpired st selected now).outbox = st.outbox :=
  foldl_releaseBatchKey (·.outbox) fun _ _ => by simp

end frame

end NotificationSystem
