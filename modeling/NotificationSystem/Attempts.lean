import NotificationSystem.Outbox

/-!
# Reserving an attempt

`NotificationAttemptService` of `app/worker/attempts.py`. `reserve` is one transaction in a
fresh session, so the row it loads is the stored one. It reads the clock up to three times:
`t₁` where it tests the processing lock, `t₂` where it computes a delay or a new lock and
`t₃` for the `created_at` defaults of the new rows. The transaction is one step here; what the
outbox query can see when it runs later than the test is the subject of `ReadCommitted`.
-/

namespace NotificationSystem

open Lib

/-- `_has_active_processing_lock`, at the reading `now` of `_is_future`. -/
def Notification.hasActiveProcessingLock (n : Notification) (now : Time) : Bool :=
  n.status = .sent && n.processingLockUntil.any (now < ·)

/-- `scalar_one_or_none`. -/
def scalarOneOrNone {α : Type*} : List α → Except Raised (Option α)
  | [] => .ok none
  | [a] => .ok (some a)
  | _ => .error .multipleResultsFound

/-- The `WHERE` clause of `_ensure_deferred_redelivery`; a comparison with `NULL` is not
true. -/
def OutboxEvent.coversLock (e : OutboxEvent) (n : Notification) : Bool :=
  e.aggregateId = n.id && e.eventType = .retryScheduled &&
    n.processingLockUntil.any (fun lockUntil => e.availableAt.any (lockUntil ≤ ·)) &&
      (e.status = .pending || e.status = .processing)

/-- The retry events that will redeliver `n` once its lock has ended. -/
def deferredRedeliveries (st : Store) (n : Notification) : List OutboxEvent :=
  st.outbox.rows.filter (·.coversLock n)

/-- The integer nearest to `n / d`, the even one of two. -/
def roundHalfEven (n d : Nat) : Nat :=
  if 2 * (n % d) < d ∨ 2 * (n % d) = d ∧ n / d % 2 = 0 then n / d else n / d + 1

/-- `ceil(delta.total_seconds())` of a positive `delta`. The quotient by `10**6` is a `float`: `k`
is the exponent with which its mantissa has 53 bits, and the division rounds to that mantissa. -/
def ceilTotalSeconds (micros : Nat) : Nat :=
  let k := 116 - Nat.log2 (micros * 2 ^ 64 / 10 ^ 6)
  (roundHalfEven (micros * 2 ^ k) (10 ^ 6) + (2 ^ k - 1)) / 2 ^ k

/-- `_seconds_until`: at least one second, rounded up. -/
def secondsUntil (value : Option Time) (now : Time) : Int :=
  match value with
  | none => 1
  | some value => max 1 (ceilTotalSeconds (value - now).toNat)

example : secondsUntil (some 61000001) 0 = 62 := by decide

-- one microsecond more than 2 ** 34 seconds is not seen by a `float`
example : secondsUntil (some 17179869184000001) 0 = 17179869184 := by decide

/-- The event that `_ensure_deferred_redelivery` adds. -/
def deferredEvent (n : Notification) (payload : Payload) (t₂ t₃ : Time) (ids : EventIds) :
    OutboxEvent :=
  retryEvent n payload (secondsUntil n.processingLockUntil t₂) n.processingLockUntil none
    (some "processing_lock_active") t₃ ids

/-- `_ensure_deferred_redelivery`. -/
def ensureDeferredRedelivery (st : Store) (n : Notification) (payload : Payload)
    (t₂ t₃ : Time) (ids : EventIds) : Except Raised Store :=
  match scalarOneOrNone (deferredRedeliveries st n) with
  | .error e => .error e
  | .ok (some _) => .ok st
  | .ok none => addOutboxEvent st (deferredEvent n payload t₂ t₃ ids)

/-- The error that `_drop_before_provider` records. -/
def maxRetriesMessage : String := "Max retry attempts exceeded before provider call"

/-- The row after `_drop_before_provider`. -/
def Notification.droppedBeforeProvider (n : Notification) : Notification :=
  { n with
    status := .dropped
    lastError := some maxRetriesMessage
    processingLockUntil := none }

/-- `_drop_before_provider`. -/
def dropBeforeProvider (st : Store) (n : Notification) (t₂ t₃ : Time) (ids : EventIds) :
    Except Raised Store :=
  let n' := n.droppedBeforeProvider
  addOutboxEvent
    ((st.saveNotification n n').addHistory ⟨n.id, .dropped, n'.lastError, t₃⟩)
    (failedEvent n' none n'.lastError t₂ t₃ ids)

/-- The row of a reserved attempt. -/
def Notification.reserved (n : Notification) (lockUntil : Time) : Notification :=
  { n with
    attempts := n.attempts + 1
    status := .sent
    processingLockUntil := some lockUntil }

/-- `reserve`: the store it commits and the notification it returns. -/
def reserve (cfg : Settings) (st : Store) (notificationId : Uuid) (payload : Payload)
    (t₁ t₂ t₃ : Time) (ids : EventIds) : Except Raised (Store × Option Notification) :=
  match st.notifications.get notificationId with
  | none => .ok (st, none)
  | some n =>
    if n.isFinal then .ok (st, none)
    else if n.hasActiveProcessingLock t₁ then
      match ensureDeferredRedelivery st n payload t₂ t₃ ids with
      | .error e => .error e
      | .ok st' => .ok (st', none)
    else if cfg.maxRetries ≤ n.attempts then
      match dropBeforeProvider st n t₂ t₃ ids with
      | .error e => .error e
      | .ok st' => .ok (st', none)
    else
      match addSeconds t₂ cfg.processingLockTtlSeconds with
      | none => .error .overflowError
      | some lockUntil =>
        .ok ((st.saveNotification n (n.reserved lockUntil)).addHistory ⟨n.id, .sent, none, t₃⟩,
          some (n.reserved lockUntil))

/-! ## What `reserve` does -/

/-- The transactions of a `reserve` that does not raise: what it commits and returns. -/
inductive Reserved (cfg : Settings) (st : Store) (id : Uuid) (payload : Payload)
    (t₁ t₂ t₃ : Time) (ids : EventIds) : Store → Option Notification → Prop
  | missing : st.notifications.get id = none → Reserved cfg st id payload t₁ t₂ t₃ ids st none
  | final {n : Notification} : st.notifications.get id = some n → n.isFinal = true →
      Reserved cfg st id payload t₁ t₂ t₃ ids st none
  | covered {n : Notification} {e : OutboxEvent} : st.notifications.get id = some n →
      n.isFinal = false → n.hasActiveProcessingLock t₁ = true → deferredRedeliveries st n = [e] →
      Reserved cfg st id payload t₁ t₂ t₃ ids st none
  | deferred {n : Notification} {outbox : Table OutboxEvent.id} :
      st.notifications.get id = some n → n.isFinal = false →
      n.hasActiveProcessingLock t₁ = true → deferredRedeliveries st n = [] →
      st.outbox.insert? (deferredEvent n payload t₂ t₃ ids) = some outbox →
      Reserved cfg st id payload t₁ t₂ t₃ ids { st with outbox } none
  | refused {n : Notification} {outbox : Table OutboxEvent.id} :
      st.notifications.get id = some n → n.isFinal = false →
      n.hasActiveProcessingLock t₁ = false → cfg.maxRetries ≤ n.attempts →
      st.outbox.insert? (failedEvent n.droppedBeforeProvider none (some maxRetriesMessage)
        t₂ t₃ ids) = some outbox →
      Reserved cfg st id payload t₁ t₂ t₃ ids
        { (st.saveNotification n n.droppedBeforeProvider).addHistory
            ⟨n.id, .dropped, some maxRetriesMessage, t₃⟩ with outbox } none
  | attempt {n : Notification} {lockUntil : Time} : st.notifications.get id = some n →
      n.isFinal = false → n.hasActiveProcessingLock t₁ = false → n.attempts < cfg.maxRetries →
      addSeconds t₂ cfg.processingLockTtlSeconds = some lockUntil →
      Reserved cfg st id payload t₁ t₂ t₃ ids
        ((st.saveNotification n (n.reserved lockUntil)).addHistory ⟨n.id, .sent, none, t₃⟩)
        (some (n.reserved lockUntil))

theorem scalarOneOrNone_ok {α : Type*} {l : List α} {o : Option α}
    (h : scalarOneOrNone l = .ok o) : l = o.toList := by
  match l with
  | [] => cases h; rfl
  | [a] => cases h; rfl
  | _ :: _ :: _ => cases h

/-- An open row without an active lock and with an attempt left is reserved. -/
theorem reserve_open {cfg : Settings} {st : Store} {id : Uuid} {payload : Payload}
    {t₁ t₂ t₃ lockUntil : Time} {ids : EventIds} {n : Notification}
    (hget : st.notifications.get id = some n) (hopen : n.isFinal = false)
    (hlock : n.hasActiveProcessingLock t₁ = false) (hleft : n.attempts < cfg.maxRetries)
    (hlockUntil : addSeconds t₂ cfg.processingLockTtlSeconds = some lockUntil) :
    reserve cfg st id payload t₁ t₂ t₃ ids =
      .ok ((st.saveNotification n (n.reserved lockUntil)).addHistory ⟨n.id, .sent, none, t₃⟩,
        some (n.reserved lockUntil)) := by
  simp only [reserve, hget, hopen, hlock, hlockUntil, Bool.false_eq_true, if_false, hleft.not_ge]

theorem reserve_ok {cfg : Settings} {st st' : Store} {id : Uuid} {payload : Payload}
    {t₁ t₂ t₃ : Time} {ids : EventIds} {out : Option Notification}
    (h : reserve cfg st id payload t₁ t₂ t₃ ids = .ok (st', out)) :
    Reserved cfg st id payload t₁ t₂ t₃ ids st' out := by
  unfold reserve at h
  split at h
  · next hget =>
    cases h
    exact .missing hget
  · next n hget =>
    split at h
    · next hfin =>
      cases h
      exact .final hget hfin
    · next hfin =>
      rw [Bool.not_eq_true] at hfin
      split at h
      · next hlock =>
        split at h
        · cases h
        · next st₁ hens =>
          cases h
          unfold ensureDeferredRedelivery at hens
          split at hens
          · cases hens
          · next e hone =>
            cases hens
            exact .covered hget hfin hlock (scalarOneOrNone_ok hone)
          · next hnone =>
            obtain ⟨outbox, hins, rfl⟩ := addOutboxEvent_ok hens
            exact .deferred hget hfin hlock (scalarOneOrNone_ok hnone) hins
      · next hlock =>
        rw [Bool.not_eq_true] at hlock
        split at h
        · next hmax =>
          split at h
          · cases h
          · next st₁ hdrop =>
            cases h
            obtain ⟨outbox, hins, rfl⟩ := addOutboxEvent_ok hdrop
            exact .refused hget hfin hlock hmax hins
        · next hmax =>
          split at h
          · cases h
          · next lockUntil hadd =>
            cases h
            exact .attempt hget hfin hlock (not_le.1 hmax) hadd

end NotificationSystem
