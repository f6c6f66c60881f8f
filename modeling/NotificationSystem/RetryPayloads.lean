import NotificationSystem.ProviderCalls
import NotificationSystem.Traced

/-!
# What a retry event says of itself

`add_retry` copies the payload of the message that is being processed, replaces three of its keys,
and two more only where it is given a value. So a retry event says what its ancestors said, except
where its writer overrides it.

* `RetryWritten`, `retryWritten_of_step` — the two writers of retry events.
* `event_id_copied` — the first retry event has the event id of the created event.
* `retry_metadata` — no retry event has an event id of its own, and when its other metadata is.
-/

namespace NotificationSystem

open Lib

variable {env : Deployment} {s s' : State} {a : Action} {e : OutboxEvent}

/-! ## The writers -/

/-- How the step `a` from `s` writes the retry event `e`: by a reserve that finds the lock active,
or by an apply. The message that is being processed has the payload `source`. -/
inductive RetryWritten (s : State) (s' : State) (e : OutboxEvent) (source : Payload) :
    Action → Prop
  | deferred {w : Nat} {d : Delivery} {n : Notification} {t₁ t₂ t₃ : Time} {ids : EventIds} :
      s.workers w = .received d → d.message.payload = source →
      s'.store.notifications.get n.id = some n → e = deferredEvent n source t₂ t₃ ids →
      RetryWritten s s' e source (.worker w (.reserve t₁ t₂ t₃ ids))
  | result {w : Nat} {d : Delivery} {n m : Notification} {result : ProviderResult}
      {lockUntil t₁ t₂ : Time} {delay : Int} {ids : EventIds} :
      s.workers w = .responded d n result → d.message.payload = source →
      s.store.notifications.get n.id = some m →
      s'.store.notifications.get n.id =
        some (Notification.writeBack n (n.awaitingRetry result lockUntil) m) →
      e = retryEvent (n.awaitingRetry result lockUntil) source delay (some lockUntil)
        result.errorMessage none t₂ ids →
      RetryWritten s s' e source (.worker w (.apply t₁ t₂ ids))

/-- A retry event that a step adds is written by a worker, from the message that it holds. -/
theorem retryWritten_of_step (hr : Referenced s) (h : Change env s a s') (he : e ∈ s'.store.outbox)
    (hnew : ∀ f ∈ s.store.outbox, f.id ≠ e.id) (htype : e.eventType = .retryScheduled) :
    ∃ source, RetryWritten s s' e source a ∧
      ∃ w d, (s.workers w).delivery? = some d ∧ d.message.payload = source := by
  -- the rows that were there before keep their ids
  have kept {f : OutboxEvent} (hf : f ∈ s.store.outbox) (hsame : e.asWritten = f.asWritten) :
      False := hnew f hf (asWritten_id hsame).symm
  cases h with
  | quiet _ _ _ ho => exact (kept (ho ▸ he) rfl).elim
  | call => exact (kept he rfl).elim
  | @reserve w d t₁ t₂ t₃ ids st out hw h₁ h₂ h₃ hfresh hres =>
    have hd : (s.workers w).delivery? = some d := by
      rw [hw]
      rfl
    rw [afterReserve_store] at he
    refine ⟨d.message.payload, ?_, w, d, hd, rfl⟩
    cases hres with
    | missing | final | covered | attempt => exact (kept he rfl).elim
    | @deferred n outbox hget _ _ _ hins =>
      rcases (Table.mem_insert? hins).1 he with he | rfl
      · exact (kept he rfl).elim
      · exact .deferred hw rfl (Table.get_of_mem (Table.mem_of_get hget)) rfl
    | refused _ _ _ _ hins =>
      rcases (Table.mem_insert? hins).1 he with he | rfl
      · exact (kept he rfl).elim
      · cases htype
  | @apply w d n result t₁ t₂ ids st hw h₁ h₂ hfresh happ =>
    have hd : (s.workers w).delivery? = some d := by
      rw [hw]
      rfl
    obtain ⟨-, m, hm⟩ := hr.flights w _ (congrArg Worker.flight? hw)
    refine ⟨d.message.payload, ?_, w, d, hd, rfl⟩
    cases happ with
    | guarded | delivered => exact (kept he rfl).elim
    | retried _ _ _ hins =>
      rcases (Table.mem_insert? hins).1 he with he | rfl
      · exact (kept he rfl).elim
      · exact .result hw rfl hm (get_saveNotification_self _ hm) rfl
    | dropped _ _ _ hins =>
      rcases (Table.mem_insert? hins).1 he with he | rfl
      · exact (kept he rfl).elim
      · cases htype
  | claim _ _ _ _ heq =>
    subst heq
    obtain ⟨f, hf, hsame⟩ := mem_claimed_asWritten he
    exact (kept hf hsame).elim
  | recordPublished | recordRaised =>
    obtain ⟨f, hf, hsame⟩ := mem_saved_asWritten he
    exact (kept hf hsame).elim
  | commit _ _ _ hcom =>
    rcases commitBulk_event hcom he with he | ⟨i, r, -, rfl⟩
    · exact (kept he rfl).elim
    · cases htype

/-! ## The metadata -/

/-- The failure that an action records: the result that an apply applies, none for a reserve. -/
def State.failure (s : State) : Action → Option ProviderResult
  | .worker w (.apply _ _ _) => (s.workers w).flight?.bind (·.result)
  | _ => none

/-- The event says that it was deferred exactly if it was. -/
def ReasonOwn (s : State) (a : Action) (e : OutboxEvent) : Prop :=
  e.payload.deferredReason.isSome = true ↔ s.failure a = none

/-- The error message is that of the failure which caused the event. -/
def ErrorOwn (s : State) (a : Action) (e : OutboxEvent) : Prop :=
  e.payload.errorMessage = (s.failure a).bind (·.errorMessage)

/-- The attempt is the next one of the notification's row. -/
def AttemptOwn (s' : State) (e : OutboxEvent) : Prop :=
  ∃ n, s'.store.notifications.get e.aggregateId = some n ∧ e.payload.attempt = n.attempts + 1

/-- No other event has the event id. -/
def EventIdOwn (s' : State) (e : OutboxEvent) : Prop :=
  ∀ f ∈ s'.store.outbox, f.id ≠ e.id → f.payload.eventId ≠ e.payload.eventId

/-- The metadata of the event that the step `a` from `s` to `s'` writes describe that event. -/
structure OwnMetadata (s : State) (a : Action) (s' : State) (e : OutboxEvent) : Prop where
  reason : ReasonOwn s a e
  error : ErrorOwn s a e
  attempt : AttemptOwn s' e
  eventId : EventIdOwn s' e

/-- The attempt in flight that `a` applies is the last one of the row. -/
def AppliesLast (s : State) : Action → Prop
  | .worker w (.apply _ _ _) => ∀ f n, (s.workers w).flight? = some f →
    s.store.notifications.get f.loaded.id = some n → n.attempts = f.loaded.attempts
  | _ => True

theorem orElse_eq_left {α : Type*} {x y : Option α} :
    (x <|> y) = x ↔ x.isSome = true ∨ y = none := by
  cases x <;> simp

theorem RetryWritten.eventId {source : Payload} (h : RetryWritten s s' e source a) :
    e.payload.eventId = source.eventId := by
  cases h with
  | deferred _ _ _ heq | result _ _ _ _ heq =>
    rw [heq]
    rfl

/-- The retry of an attempt says the next number after it, the row is at its own number. -/
theorem attemptOwn_retry {w : Nat} {d : Delivery} {n m : Notification} {result : ProviderResult}
    {source : Payload} {lockUntil t₁ t₂ : Time} {delay : Int} {error : Option String}
    {ids : EventIds} (hw : s.workers w = .responded d n result)
    (hm : s.store.notifications.get n.id = some m)
    (hrow : s'.store.notifications.get n.id =
      some (Notification.writeBack n (n.awaitingRetry result lockUntil) m)) :
    AttemptOwn s' (retryEvent (n.awaitingRetry result lockUntil) source delay (some lockUntil)
      error none t₂ ids) ↔ AppliesLast s (.worker w (.apply t₁ t₂ ids)) := by
  constructor
  · rintro ⟨n', hn', hattempt⟩ g m' hg hm'
    cases hrow.symm.trans hn'
    rw [hw] at hg
    cases hg
    cases hm.symm.trans hm'
    simpa [retryEvent, retryPayload, Notification.awaitingRetry, Notification.withError,
      Notification.writeBack, eq_comm] using hattempt
  · intro hlast
    have hattempts := hlast _ m (by rw [hw]; rfl) hm
    refine ⟨_, hrow, ?_⟩
    simp only [retryEvent, retryPayload, Notification.awaitingRetry, Notification.withError,
      Notification.writeBack, writeColumn_same]
    rw [hattempts]

/-- **A retry event shares its event id** with the event whose message was processed when it was
written. Its other metadata are its own exactly where the copied payload says nothing else. -/
theorem retry_metadata (h : (machine env).Reach Machine.Always s) (hstep : step env s a = some s')
    (he : e ∈ s'.store.outbox) (hnew : ∀ f ∈ s.store.outbox, f.id ≠ e.id)
    (htype : e.eventType = .retryScheduled) :
    ¬ OwnMetadata s a s' e ∧ ∃ f ∈ s.store.outbox, f.payload.eventId = e.payload.eventId ∧
      (ReasonOwn s a e ↔ s.failure a = none ∨ f.payload.deferredReason = none) ∧
      (ErrorOwn s a e ↔
        ((s.failure a).bind (·.errorMessage)).isSome = true ∨ f.payload.errorMessage = none) ∧
      (AttemptOwn s' e ↔ AppliesLast s a) := by
  have hchange := change_of_step hstep
  obtain ⟨source, hwritten, w, d, hd, hsource⟩ :=
    retryWritten_of_step (referenced_reach h) hchange he hnew htype
  obtain ⟨f, hf, -, -, hpayload, -⟩ := (traced_reach h).known d.message (known_of_delivery hd)
  have hfsource : f.payload = source := hpayload.trans hsource
  have hid : f.payload.eventId = e.payload.eventId := by
    rw [hfsource, hwritten.eventId]
  refine ⟨fun hown => ?_, f, hf, hid, ?_⟩
  · obtain ⟨f', hf', hsame, -⟩ := hchange.extends.outbox hf
    refine hown.eventId f' hf' ?_ ?_
    · rw [asWritten_id hsame]
      exact hnew f hf
    · rw [asWritten_payload hsame, hid]
  · rw [hfsource]
    cases hwritten with
    | deferred hw _ hrow heq =>
      subst heq
      refine ⟨iff_of_true ⟨fun _ => rfl, fun _ => rfl⟩ (.inl rfl), ?_,
        iff_of_true ⟨_, hrow, rfl⟩ trivial⟩
      show source.errorMessage = none ↔ _
      simp [State.failure]
    | @result w d n m result lockUntil t₁ t₂ delay ids hw _ hm hrow heq =>
      subst heq
      have hfailure : s.failure (.worker w (.apply t₁ t₂ ids)) = some result := by
        simp [State.failure, hw, Worker.flight?]
      refine ⟨?_, ?_, attemptOwn_retry hw hm hrow⟩
      · show (source.deferredReason.isSome = true ↔ _) ↔ _
        simp [hfailure]
      · show ((result.errorMessage <|> source.errorMessage) = _) ↔ _
        rw [hfailure]
        exact orElse_eq_left

/-- The first retry event of the sample: the attempt meets a temporary error. -/
def Sample.firstRetry : List Action :=
  Sample.attempt ++ [.worker 0 .send, .worker 0 (.answer Sample.temporaryError)]

theorem exists_firstRetry : ∃ s s' e, (machine Sample.env).Reach Machine.Always s ∧
    step Sample.env s (.worker 0 (.apply 0 0 ⟨6, 7⟩)) = some s' ∧ e ∈ s'.store.outbox ∧
      (∀ f ∈ s.store.outbox, f.id ≠ e.id) ∧ e.eventType = .retryScheduled ∧
        ∃ f ∈ s'.store.outbox, f.id ≠ e.id ∧ f.payload.eventId = e.payload.eventId := by
  obtain ⟨s, hrun, hs⟩ := Machine.Run.exists_of_exec_always (machine Sample.env) (.initial 0)
    Sample.firstRetry
    (fun s => s.store.outbox.rows.all (·.id ≠ 7) &&
      ((machine Sample.env).exec s [.worker 0 (.apply 0 0 ⟨6, 7⟩)]).any fun s' =>
        (s'.store.outbox.get 7).any (fun e => e.eventType = .retryScheduled &&
          e.payload.eventId = 2) &&
        (s'.store.outbox.get 3).any (·.payload.eventId = 2)) (by decide)
  rw [Bool.and_eq_true, List.all_eq_true] at hs
  obtain ⟨hnew, hnext⟩ := hs
  obtain ⟨s', hstep, hs'⟩ := Machine.step_of_exec hnext
  simp only [Bool.and_eq_true, Option.any_eq_true, decide_eq_true_eq] at hs' hnew
  obtain ⟨⟨e, he, htype, hid⟩, f, hf, hfid⟩ := hs'
  obtain ⟨hmem, hkey⟩ := Table.get_eq_some.1 he
  obtain ⟨hfmem, hfkey⟩ := Table.get_eq_some.1 hf
  refine ⟨s, s', e, .run (.init ⟨0, rfl⟩) hrun, hstep, hmem, fun g hg => ?_, htype, f, hfmem, ?_,
    hfid.trans hid.symm⟩
  · rw [hkey]
    exact hnew g hg
  · rw [hkey, hfkey]
    decide

theorem retry_metadata_first : ∃ s a s' e, e.eventType = .retryScheduled ∧
    ¬ OwnMetadata s a s' e ∧ ∃ f ∈ s.store.outbox, f.payload.eventId = e.payload.eventId ∧
      (ReasonOwn s a e ↔ s.failure a = none ∨ f.payload.deferredReason = none) ∧
      (ErrorOwn s a e ↔
        ((s.failure a).bind (·.errorMessage)).isSome = true ∨ f.payload.errorMessage = none) ∧
      (AttemptOwn s' e ↔ AppliesLast s a) := by
  obtain ⟨s, s', e, hreach, hstep, he, hnew, htype, -⟩ := exists_firstRetry
  exact ⟨s, _, s', e, htype, retry_metadata hreach hstep he hnew htype⟩

/-- **The event id is copied**: the first retry event of the sample has that of the created
event. -/
theorem event_id_copied : ¬ ∀ (env : Deployment) (s s' : State) (a : Action) (e : OutboxEvent),
    (machine env).Reach Machine.Always s → step env s a = some s' → e ∈ s'.store.outbox →
      (∀ f ∈ s.store.outbox, f.id ≠ e.id) → e.eventType = .retryScheduled →
      OwnMetadata s a s' e := by
  intro h
  obtain ⟨s, s', e, hreach, hstep, he, hnew, htype, f, hf, hne, hid⟩ := exists_firstRetry
  exact (h Sample.env s s' _ e hreach hstep he hnew htype).eventId f hf hne hid

end NotificationSystem
