import NotificationSystem.Outbox

/-!
# The broker

The queues and bindings of `RabbitMQTopology.declare` and the routing of
`NotificationPublisher`. The broker may return a delivered message to its queue (a reject, a
lost connection) or dead-letter it; after how many deliveries it does the latter
(`x-delivery-limit`) is left open, so every limit is covered.
-/

namespace NotificationSystem

inductive QueueName
  | high
  | low
  | dlq
  deriving DecidableEq, Repr

/-- A message body. `event` and `eventType` say which outbox event was published; they are
not part of the body and no party reads them. -/
structure Message where
  event : Uuid
  eventType : EventType
  payload : Payload
  deriving DecidableEq, Repr

/-- The direct exchange: the queue bound with a routing key. -/
def exchangeBinding (routingKey : String) : Option QueueName :=
  if routingKey = "notification.high" then some .high
  else if routingKey = "notification.low" then some .low
  else none

/-- The dead-letter exchange. -/
def dlxBinding (routingKey : String) : Option QueueName :=
  if routingKey = "notification.failed" then some .dlq else none

/-- `publish_outbox_event`: the queue that a published event reaches. It raises for another
event type, and the broker returns a message that no queue is bound for. -/
def publishOutboxEvent (eventType : EventType) (payload : Payload) : Option QueueName :=
  match eventType with
  | .created => exchangeBinding payload.routingKey
  | .retryScheduled => exchangeBinding payload.routingKey
  | .failed => dlxBinding "notification.failed"
  | .other _ => none

/-- The messages that wait in each queue. -/
structure Broker where
  queues : QueueName → List Message

namespace Broker

def empty : Broker := ⟨fun _ => []⟩

/-- Append a message to a queue. -/
def push (b : Broker) (q : QueueName) (m : Message) : Broker :=
  ⟨Function.update b.queues q (b.queues q ++ [m])⟩

/-- Deliver a message: take one copy of it out of a queue. -/
def take (b : Broker) (q : QueueName) (m : Message) : Broker :=
  ⟨Function.update b.queues q ((b.queues q).erase m)⟩

/-- Return an unacked message to its queue, or dead-letter it. -/
def giveBack (b : Broker) (q : QueueName) (m : Message) (dead : Bool) : Broker :=
  b.push (if dead then .dlq else q) m

variable {b : Broker} {q p : QueueName} {m x : Message}

theorem mem_push : x ∈ (b.push q m).queues p ↔ x ∈ b.queues p ∨ (p = q ∧ x = m) := by
  unfold push
  by_cases h : p = q
  · subst h; simp
  · simp [h]

theorem mem_of_mem_take (h : x ∈ (b.take q m).queues p) : x ∈ b.queues p := by
  unfold take at h
  by_cases hp : p = q
  · subst hp
    exact List.mem_of_mem_erase (by simpa using h)
  · simpa [hp] using h

theorem mem_take_of_ne (hne : x ≠ m) (h : x ∈ b.queues p) : x ∈ (b.take q m).queues p := by
  unfold take
  by_cases hp : p = q
  · subst hp
    simpa using (List.mem_erase_of_ne hne).2 h
  · simpa [hp] using h

end Broker

end NotificationSystem
