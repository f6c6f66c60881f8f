import NotificationSystem.References

/-!
# The life of one notification

The abstract view of the system: what one notification goes through, whatever the others
do. A `Lifecycle` is its row, its history, its events, the provider calls made for it and its
attempts in flight; messages, queues, publishers and requests are gone, since any delivery
may come at any time.

* `Lifecycle.Step` — the transactions of one notification.
* `Lifecycle.Step.flight`, `Lifecycle.Step.counts` — what each of them can change.
-/

namespace NotificationSystem

open Lib

variable {env : Deployment} {s s' : State} {a : Action} {id : Uuid}

@[ext]
structure Lifecycle where
  now : Time
  row : Option Notification
  history : List NotificationStatusHistory
  events : List OutboxEvent
  calls : List ProviderCall
  flights : Nat → Option Flight

/-- The history of a notification, in commit order. -/
def Store.historyOf (st : Store) (id : Uuid) : List NotificationStatusHistory :=
  st.history.filter (·.notificationId = id)

/-- The outbox events of a notification. -/
def Store.eventsOf (st : Store) (id : Uuid) : List OutboxEvent :=
  st.outbox.rows.filter (·.aggregateId = id)

/-- The provider calls made for a notification: its id is the provider's idempotency key. -/
def State.callsOf (s : State) (id : Uuid) : List ProviderCall :=
  s.calls.filter (·.idempotencyKey = id)

/-- The worker's attempt in flight, when it is one for the notification. -/
def Worker.flightOf (x : Worker) (id : Uuid) : Option Flight :=
  x.flight?.filter (·.loaded.id = id)

/-- What `s` holds of one notification. -/
def State.lifecycle (s : State) (id : Uuid) : Lifecycle where
  now := s.now
  row := s.store.notifications.get id
  history := s.store.historyOf id
  events := s.store.eventsOf id
  calls := s.callsOf id
  flights w := (s.workers w).flightOf id

/-- Before the notification is created. -/
def Lifecycle.initial (now : Time) : Lifecycle := ⟨now, none, [], [], [], fun _ => none⟩

theorem flightOf_eq_some {x : Worker} {f : Flight} :
    x.flightOf id = some f ↔ x.flight? = some f ∧ f.loaded.id = id := by
  simp [Worker.flightOf, Option.filter_eq_some_iff]

theorem flightOf_of_none {x : Worker} (h : x.flight? = none) : x.flightOf id = none := by
  simp [Worker.flightOf, h]

/-! ## The steps of a lifecycle -/

/-- What a step of the system does to one notification. Nothing in a `quiet` step concerns
it, except that publishers may move its events along and that an attempt in flight may be
answered or crash. -/
inductive Lifecycle.Step (cfg : Settings) (l : Lifecycle) : Action → Lifecycle → Prop
  | quiet {a : Action} {l' : Lifecycle} : l.now ≤ l'.now → l'.row = l.row →
      l'.history = l.history → l'.events.map (·.asWritten) = l.events.map (·.asWritten) →
      l'.calls = l.calls →
      (∀ w f', l'.flights w = some f' → ∃ f, l.flights w = some f ∧ f.Continues f') →
      Step cfg l a l'
  | create {q i : Nat} {r : Int} {ids : Nat → Uuid} {stamps : Nat → Time}
      {request : BulkNotificationRequest} :
      l.row = none → l.history = [] → l.events = [] → l.calls = [] →
      (∀ w, l.flights w = none) → stamps (4 * i + 3) ≤ l.now →
      Step cfg l (.request q (.commit ids stamps))
        { l with
          row := some (newNotification request ids stamps i r)
          history := [⟨ids (3 * i + 1), .queued, none, stamps (4 * i + 3)⟩]
          events := [createdEvent request ids stamps i r] }
  | call {w : Nat} {f : Flight} : l.flights w = some f → f.called = false → f.result = none →
      Step cfg l (.worker w .send)
        { l with
          calls := l.calls ++ [providerCall f.loaded]
          flights := Function.update l.flights w (some { f with called := true }) }
  | reserve {w : Nat} {t₁ t₂ t₃ lockUntil : Time} {ids : EventIds} {n : Notification}
      {payload : Payload} :
      l.now ≤ t₁ → t₁ ≤ t₂ → t₂ ≤ t₃ → l.row = some n → n.isFinal = false →
      n.hasActiveProcessingLock t₁ = false → n.attempts < cfg.maxRetries →
      addSeconds t₂ cfg.processingLockTtlSeconds = some lockUntil → l.flights w = none →
      Step cfg l (.worker w (.reserve t₁ t₂ t₃ ids))
        { l with
          now := t₃
          row := some (n.reserved lockUntil)
          history := l.history ++ [⟨n.id, .sent, none, t₃⟩]
          flights :=
            Function.update l.flights w (some { loaded := n.reserved lockUntil, payload }) }
  | defer {w : Nat} {t₁ t₂ t₃ : Time} {ids : EventIds} {n : Notification} {payload : Payload} :
      l.now ≤ t₁ → t₁ ≤ t₂ → t₂ ≤ t₃ → l.row = some n → n.isFinal = false →
      n.hasActiveProcessingLock t₁ = true → (∀ e ∈ l.events, e.coversLock n = false) →
      Step cfg l (.worker w (.reserve t₁ t₂ t₃ ids))
        { l with
          now := t₃
          events := l.events ++ [deferredEvent n payload t₂ t₃ ids] }
  | refuse {w : Nat} {t₁ t₂ t₃ : Time} {ids : EventIds} {n : Notification} :
      l.now ≤ t₁ → t₁ ≤ t₂ → t₂ ≤ t₃ → l.row = some n → n.isFinal = false →
      n.hasActiveProcessingLock t₁ = false → cfg.maxRetries ≤ n.attempts →
      Step cfg l (.worker w (.reserve t₁ t₂ t₃ ids))
        { l with
          now := t₃
          row := some n.droppedBeforeProvider
          history := l.history ++ [⟨n.id, .dropped, some maxRetriesMessage, t₃⟩]
          events := l.events ++
            [failedEvent n.droppedBeforeProvider none (some maxRetriesMessage) t₂ t₃ ids] }
  | deliver {w : Nat} {t₁ t₂ : Time} {ids : EventIds} {f : Flight} {result : ProviderResult}
      {m : Notification} :
      l.now ≤ t₁ → t₁ ≤ t₂ → l.flights w = some f → f.result = some result →
      (result.success && result.delivered) = true → l.row = some m →
      Step cfg l (.worker w (.apply t₁ t₂ ids))
        { l with
          now := t₂
          row := some (Notification.writeBack f.loaded (f.loaded.markedDelivered result) m)
          history := l.history ++ [⟨f.loaded.id, .delivered, none, t₂⟩]
          flights := Function.update l.flights w none }
  | retry {w : Nat} {t₁ t₂ lockUntil : Time} {delay : Int} {ids : EventIds} {f : Flight}
      {result : ProviderResult} {m : Notification} :
      l.now ≤ t₁ → t₁ ≤ t₂ → l.flights w = some f → f.result = some result →
      (result.success && result.delivered) = false →
      retryUntil cfg f.loaded.attempts result t₁ = .ok (some (delay, lockUntil)) →
      l.row = some m →
      Step cfg l (.worker w (.apply t₁ t₂ ids))
        { l with
          now := t₂
          row := some
            (Notification.writeBack f.loaded (f.loaded.awaitingRetry result lockUntil) m)
          events := l.events ++
            [retryEvent (f.loaded.awaitingRetry result lockUntil) f.payload delay
              (some lockUntil) result.errorMessage none t₂ ids]
          flights := Function.update l.flights w none }
  | drop {w : Nat} {t₁ t₂ : Time} {ids : EventIds} {f : Flight} {result : ProviderResult}
      {m : Notification} :
      l.now ≤ t₁ → t₁ ≤ t₂ → l.flights w = some f → f.result = some result →
      (result.success && result.delivered) = false →
      retryUntil cfg f.loaded.attempts result t₁ = .ok none → l.row = some m →
      Step cfg l (.worker w (.apply t₁ t₂ ids))
        { l with
          now := t₂
          row := some (Notification.writeBack f.loaded (f.loaded.droppedByResult result) m)
          history := l.history ++ [⟨f.loaded.id, .dropped, result.errorMessage, t₂⟩]
          events := l.events ++
            [failedEvent (f.loaded.droppedByResult result) (some f.payload)
              result.errorMessage t₁ t₂ ids]
          flights := Function.update l.flights w none }

/-- The bookkeeping of the publishers does not change how many events there are of a kind. -/
theorem countP_asWritten {es es' : List OutboxEvent} {p : OutboxEvent → Bool}
    (hp : ∀ e, p e.asWritten = p e) (h : es'.map (·.asWritten) = es.map (·.asWritten)) :
    es'.countP p = es.countP p := by
  have key (es : List OutboxEvent) : es.countP p = (es.map (·.asWritten)).countP p := by
    rw [List.countP_map]
    exact congrArg (es.countP ·) (funext fun e => (hp e).symm)
  rw [key, h, ← key]

/-! ## What a step changes -/

section inversion

variable {cfg : Settings} {l l' : Lifecycle}

/-- The notification's attempt counter. -/
def Lifecycle.attempts (l : Lifecycle) : Nat := (l.row.map (·.attempts)).getD 0

/-- The `sent` rows of the history. -/
def Lifecycle.sentRows (l : Lifecycle) : Nat := l.history.countP (·.status = .sent)

section flights

variable {fs : Nat → Option Flight} {v w : Nat} {f f' : Flight}

theorem of_update_none (h : Function.update fs w none v = some f) : v ≠ w ∧ fs v = some f := by
  rw [Function.update_apply] at h
  split at h
  · cases h
  · next hv => exact ⟨hv, h⟩

theorem of_update_some (h : Function.update fs w (some f') v = some f) :
    (v = w ∧ f = f') ∨ (v ≠ w ∧ fs v = some f) := by
  rw [Function.update_apply] at h
  split at h
  · next hv => exact .inl ⟨hv, (Option.some.inj h).symm⟩
  · next hv => exact .inr ⟨hv, h⟩

/-- An attempt in flight was in flight before, or this step has reserved it. -/
theorem Lifecycle.Step.flight (h : Step cfg l a l') (hf : l'.flights v = some f') :
    (∃ f, l.flights v = some f ∧ f'.loaded = f.loaded ∧ f'.payload = f.payload) ∨
      ∃ n lockUntil, l.row = some n ∧ f'.loaded = n.reserved lockUntil ∧
        l'.row = some (n.reserved lockUntil) ∧
          ∀ u g, u ≠ v → l'.flights u = some g → l.flights u = some g := by
  cases h with
  | quiet _ _ _ _ _ hfl =>
    obtain ⟨f, hw, hl, hp, -⟩ := hfl v f' hf
    exact .inl ⟨f, hw, hl, hp⟩
  | create _ _ _ _ hnone => exact absurd hf (by simp [hnone])
  | call hw =>
    rcases of_update_some hf with ⟨rfl, rfl⟩ | ⟨-, hv⟩
    · exact .inl ⟨_, hw, rfl, rfl⟩
    · exact .inl ⟨_, hv, rfl, rfl⟩
  | reserve _ _ _ hrow =>
    rcases of_update_some hf with ⟨rfl, rfl⟩ | ⟨-, hv⟩
    · refine .inr ⟨_, _, hrow, rfl, rfl, fun u g hu hg => ?_⟩
      exact (of_update_some hg).elim (fun h => absurd h.1 hu) And.right
    · exact .inl ⟨_, hv, rfl, rfl⟩
  | defer | refuse => exact .inl ⟨_, hf, rfl, rfl⟩
  | deliver | retry | drop => exact .inl ⟨_, (of_update_none hf).2, rfl, rfl⟩

end flights

/-- The attempts never decrease, and they increase by one exactly when a `sent` row is
added. -/
theorem Lifecycle.Step.counts (h : Step cfg l a l') :
    (l'.attempts = l.attempts ∧ l'.sentRows = l.sentRows) ∨
      (l'.attempts = l.attempts + 1 ∧ l'.sentRows = l.sentRows + 1 ∧
        (l'.attempts : Int) ≤ cfg.maxRetries) := by
  cases h with
  | quiet _ hrow hh => exact .inl ⟨by rw [attempts, hrow]; rfl, by rw [sentRows, hh]; rfl⟩
  | create hrow hh => exact .inl ⟨by simp [attempts, hrow, newNotification], by simp [sentRows, hh]⟩
  | call | defer => exact .inl ⟨rfl, rfl⟩
  | reserve _ _ _ hrow _ _ hmax =>
    refine .inr ⟨by simp [attempts, hrow, Notification.reserved], by simp [sentRows], ?_⟩
    simp only [attempts, Notification.reserved, Option.map_some, Option.getD_some]
    omega
  | refuse _ _ _ hrow =>
    exact .inl ⟨by simp [attempts, hrow, Notification.droppedBeforeProvider], by simp [sentRows]⟩
  | deliver _ _ _ _ _ hrow =>
    exact .inl ⟨by simp [attempts, hrow, Notification.writeBack, Notification.markedDelivered],
      by simp [sentRows]⟩
  | retry _ _ _ _ _ _ hrow =>
    exact .inl ⟨by simp [attempts, hrow, Notification.writeBack, Notification.awaitingRetry,
      Notification.withError], rfl⟩
  | drop _ _ _ _ _ _ hrow =>
    exact .inl ⟨by simp [attempts, hrow, Notification.writeBack, Notification.droppedByResult,
      Notification.withError], by simp [sentRows]⟩

theorem Lifecycle.Step.attempts_le (h : Step cfg l a l') : l.attempts ≤ l'.attempts := by
  rcases h.counts with ⟨h, -⟩ | ⟨h, -⟩ <;> omega

theorem Lifecycle.Step.now_le (h : Step cfg l a l') : l.now ≤ l'.now := by
  cases h with
  | quiet h => exact h
  | create | call => exact le_rfl
  | reserve h₁ h₂ h₃ | defer h₁ h₂ h₃ | refuse h₁ h₂ h₃ => exact h₁.trans (h₂.trans h₃)
  | deliver h₁ h₂ | retry h₁ h₂ | drop h₁ h₂ => exact h₁.trans h₂

end inversion

end NotificationSystem
