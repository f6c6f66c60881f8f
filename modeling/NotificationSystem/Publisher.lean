import Mathlib.Data.List.Sort
import NotificationSystem.Broker

/-!
# The outbox publisher

`OutboxPublisher` of `app/messaging/outbox_publisher.py`: the claim transaction, and the two
ways of recording an outcome. `_publish_one` loads the row, publishes and only then commits,
so it writes over whatever the row has become, column by column.
-/

namespace NotificationSystem

open Lib

structure ClaimedOutboxEvent where
  id : Uuid
  eventType : EventType
  payload : Payload
  deriving DecidableEq, Repr

/-- The `WHERE` clause of `claim_pending`. -/
def OutboxEvent.claimable (e : OutboxEvent) (now claimDeadline : Time) : Bool :=
  (e.status = .pending && (e.availableAt.isNone || e.availableAt.any (· ≤ now))) ||
    (e.status = .processing && e.lockedAt.any (· < claimDeadline))

/-- The first sort key of `claim_pending`. -/
def OutboxEvent.priority (e : OutboxEvent) : Nat :=
  if e.payload.routingKey = "notification.high" then 0 else 1

/-- The order of `claim_pending`: the priority class, then `created_at`. -/
def OutboxEvent.claimsBefore (e f : OutboxEvent) : Prop :=
  e.priority < f.priority ∨ (e.priority = f.priority ∧ e.createdAt ≤ f.createdAt)

instance : DecidableRel OutboxEvent.claimsBefore := fun e f => by
  unfold OutboxEvent.claimsBefore; infer_instance

/-- The rows that `claim_pending` selects. `SKIP LOCKED` passes over the rows in `locked`,
which other transactions hold. -/
def selectClaimable (cfg : Settings) (st : Store) (now claimDeadline : Time)
    (locked : List Uuid) : List OutboxEvent :=
  ((st.outbox.rows.filter fun e => e.claimable now claimDeadline && e.id ∉ locked).insertionSort
    OutboxEvent.claimsBefore).take cfg.outboxBatchSize

/-- The row of a claimed event. -/
def OutboxEvent.claimed (e : OutboxEvent) (claimedAt : Time) : OutboxEvent :=
  { e with
    status := .processing
    lockedAt := some claimedAt
    attempts := e.attempts + 1 }

theorem OutboxEvent.claimed_id (claimedAt : Time) (e : OutboxEvent) :
    (e.claimed claimedAt).id = e.id := rfl

/-- Mark the selected rows as claimed. -/
def claimRows (st : Store) (events : List OutboxEvent) (claimedAt : Time) : Store :=
  { st with
    outbox := st.outbox.modifyWhere (fun e => e.id ∈ events.map (·.id)) (·.claimed claimedAt)
      (OutboxEvent.claimed_id claimedAt) }

/-- `claim_pending`, with its three readings of the clock; `none` when the deadline is not a
`datetime`. -/
def claimPending (cfg : Settings) (st : Store) (t₁ t₂ t₃ : Time) (locked : List Uuid) :
    Option (Store × List ClaimedOutboxEvent) :=
  (addSeconds t₂ (-cfg.outboxClaimTimeoutSeconds)).map fun claimDeadline =>
    let events := selectClaimable cfg st t₁ claimDeadline locked
    (claimRows st events t₃, events.map fun e => ⟨e.id, e.eventType, e.payload⟩)

/-- `_mark_published`. -/
def OutboxEvent.markPublished (e : OutboxEvent) (now : Time) : OutboxEvent :=
  { e with
    status := .published
    publishedAt := some now
    lockedAt := none
    lastError := none }

/-- `_mark_publish_failed`. -/
def OutboxEvent.markPublishFailed (cfg : Settings) (e : OutboxEvent) (error : String) :
    OutboxEvent :=
  { e with
    status := if cfg.outboxMaxAttempts ≤ e.attempts then .failed else .pending
    lockedAt := none
    lastError := some error }

/-- A failing publish leaves the event to be tried again, or gives it up. -/
theorem markPublishFailed_status (cfg : Settings) (e : OutboxEvent) (error : String) :
    (e.markPublishFailed cfg error).status = .pending ∨
      ((e.markPublishFailed cfg error).status = .failed ∧ cfg.outboxMaxAttempts ≤ e.attempts) := by
  unfold OutboxEvent.markPublishFailed
  by_cases h : cfg.outboxMaxAttempts ≤ e.attempts
  · exact .inr ⟨if_pos h, h⟩
  · exact .inl (if_neg h)

/-- What a session that loaded `loaded` and left `updated` writes over the stored row. -/
def OutboxEvent.writeBack (loaded updated stored : OutboxEvent) : OutboxEvent :=
  { stored with
    status := writeColumn loaded.status updated.status stored.status
    attempts := writeColumn loaded.attempts updated.attempts stored.attempts
    lastError := writeColumn loaded.lastError updated.lastError stored.lastError
    lockedAt := writeColumn loaded.lockedAt updated.lockedAt stored.lockedAt
    publishedAt := writeColumn loaded.publishedAt updated.publishedAt stored.publishedAt }

theorem OutboxEvent.writeBack_id (loaded updated stored : OutboxEvent) :
    (writeBack loaded updated stored).id = stored.id := rfl

/-- A saved status is the stored one or the one that the session left. -/
theorem writeBack_status (loaded updated stored : OutboxEvent) :
    (OutboxEvent.writeBack loaded updated stored).status = stored.status ∨
      (OutboxEvent.writeBack loaded updated stored).status = updated.status :=
  writeColumn_eq_or

theorem writeBack_attempts (loaded updated stored : OutboxEvent)
    (h : updated.attempts = loaded.attempts) :
    (OutboxEvent.writeBack loaded updated stored).attempts = stored.attempts := by
  simp [OutboxEvent.writeBack, h]

/-- The commit of `_publish_one`. -/
def Store.saveOutboxEvent (st : Store) (loaded updated : OutboxEvent) : Store :=
  { st with
    outbox := st.outbox.modify loaded.id (OutboxEvent.writeBack loaded updated)
      (OutboxEvent.writeBack_id loaded updated) }

end NotificationSystem
