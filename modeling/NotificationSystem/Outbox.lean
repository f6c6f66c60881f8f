import NotificationSystem.Models

/-!
# Writing outbox events

`outbox_service.py`, `outbox_events.py` and `routing_key_for_notification_type`. An event is
a row of the outbox table, inserted in the transaction of the change it announces.
-/

namespace NotificationSystem

open Lib

/-- `routing_key_for_notification_type`. -/
def routingKeyForNotificationType : NotificationType → String
  | .transactional => "notification.high"
  | .marketing => "notification.low"

/-- `notification_payload`, which leaves the optional keys that are `None` out. -/
def notificationPayload (eventId : Uuid) (n : Notification) (attempt : Nat) (createdAt : Time)
    (routingKey : String) (errorMessage : Option String) : Payload where
  eventId := eventId
  notificationId := n.id
  batchId := n.batchId
  subscriberId := n.subscriberId
  channel := n.channel
  type := n.type
  attempt := attempt
  createdAt := createdAt
  routingKey := routingKey
  errorMessage := errorMessage

/-- `add_outbox_event`, committed: the only constraint of the table is its primary key. -/
def addOutboxEvent (st : Store) (event : OutboxEvent) : Except Raised Store :=
  match st.outbox.insert? event with
  | none => .error .integrityError
  | some outbox => .ok { st with outbox }

/-- The two uuids that a new event may draw: the payload's `event_id` and the row's `id`. -/
structure EventIds where
  eventId : Uuid
  rowId : Uuid
  deriving DecidableEq, Repr

/-! ## `NotificationOutboxEvents` -/

/-- `_routing_key`: the source payload's routing key, when there is a non-empty one. -/
def failedRoutingKey (n : Notification) : Option Payload → String
  | some source =>
    if source.routingKey ≠ "" then source.routingKey else routingKeyForNotificationType n.type
  | none => routingKeyForNotificationType n.type

/-- The row that `add_failed` adds. -/
def failedEvent (n : Notification) (source : Option Payload) (errorMessage : Option String)
    (now createdAt : Time) (ids : EventIds) : OutboxEvent where
  id := ids.rowId
  aggregateId := n.id
  eventType := .failed
  payload :=
    notificationPayload ids.eventId n n.attempts now (failedRoutingKey n source) errorMessage
  createdAt := createdAt

/-- The payload of a retry: a copy of the consumed message's, with some keys replaced. -/
def retryPayload (n : Notification) (source : Payload) (delaySeconds : Int)
    (errorMessage deferredReason : Option String) : Payload :=
  { source with
    attempt := n.attempts + 1
    routingKey := routingKeyForNotificationType n.type
    retryDelaySeconds := some delaySeconds
    errorMessage := errorMessage <|> source.errorMessage
    deferredReason := deferredReason <|> source.deferredReason }

/-- The row that `add_retry` adds. -/
def retryEvent (n : Notification) (source : Payload) (delaySeconds : Int)
    (availableAt : Option Time)
    (errorMessage deferredReason : Option String) (createdAt : Time) (ids : EventIds) :
    OutboxEvent where
  id := ids.rowId
  aggregateId := n.id
  eventType := .retryScheduled
  payload := retryPayload n source delaySeconds errorMessage deferredReason
  createdAt := createdAt
  availableAt := availableAt

/-! ## Lemmas -/

section lemmas

variable {st st' : Store} {event : OutboxEvent}

theorem addOutboxEvent_ok (h : addOutboxEvent st event = .ok st') :
    ∃ outbox, st.outbox.insert? event = some outbox ∧ st' = { st with outbox } := by
  unfold addOutboxEvent at h
  split at h
  · cases h
  · next outbox heq =>
    cases h
    exact ⟨outbox, heq, rfl⟩

theorem addOutboxEvent_of_insert {outbox : Table OutboxEvent.id}
    (h : st.outbox.insert? event = some outbox) :
    addOutboxEvent st event = .ok { st with outbox } := by
  simp [addOutboxEvent, h]

theorem addOutboxEvent_of_fresh (st : Store) (event : OutboxEvent)
    (h : ∀ e ∈ st.outbox, e.id ≠ event.id) :
    ∃ st', addOutboxEvent st event = .ok st' := by
  obtain ⟨outbox, heq⟩ := Table.insert?_of_fresh h
  exact ⟨{ st with outbox }, addOutboxEvent_of_insert heq⟩

end lemmas

end NotificationSystem
