import NotificationSystem.Redelivery

/-!
# Retry messages are neither early nor turned away by their own lock

A claim waits for `available_at`, except that a claim which is taken over is not tested again; and
`reserve` tests the lock strictly. So a message of a retry event reaches a worker when the lock
that the event was written for has ended.

* `OnTime`, `onTime_reach` — every retry event has an `available_at`, and no publish call for an
  event is earlier.
* `retry_on_time` — what follows for the worker that reserves on the message.
-/

namespace NotificationSystem

open Lib

variable {env : Deployment} {s s' : State} {a : Action}

/-- A retry event is due at some time. -/
def OutboxEvent.Due (e : OutboxEvent) : Prop :=
  e.eventType = .retryScheduled → ∃ t, e.availableAt = some t

structure OnTime (s : State) : Prop where
  due : ∀ e ∈ s.store.outbox, e.Due
  publishes : ∀ c ∈ s.publishes, ∀ e ∈ s.store.outbox, e.id = c.event →
    ∀ t, e.availableAt = some t → t ≤ c.time

theorem onTime_initial (now : Time) : OnTime (State.initial now) where
  due _ h := absurd h Table.not_mem_empty
  publishes _ h := by cases h

/-! ## The steps -/

theorem reserved_due {cfg : Settings} {st st' : Store} {id : Uuid} {payload : Payload}
    {t₁ t₂ t₃ : Time} {ids : EventIds} {out : Option Notification}
    (h : Reserved cfg st id payload t₁ t₂ t₃ ids st' out) :
    ∀ e ∈ st'.outbox, e ∈ st.outbox ∨ e.Due := by
  intro e he
  refine (reserved_adds h he).imp_right fun hadds htype => ?_
  cases hadds with
  | deferred _ _ hlock =>
    -- the lock is active, so there is one
    rw [Notification.hasActiveProcessingLock, Bool.and_eq_true] at hlock
    obtain ⟨lockUntil, hL, -⟩ := (Option.any_eq_true _ _).1 hlock.2
    exact ⟨lockUntil, hL⟩
  | refused => cases htype

theorem applied_due {cfg : Settings} {st st' : Store} {id : Uuid} {payload : Payload}
    {loaded : Notification} {result : ProviderResult} {t₁ t₂ : Time} {ids : EventIds}
    (h : Applied cfg st id payload loaded result t₁ t₂ ids st') :
    ∀ e ∈ st'.outbox, e ∈ st.outbox ∨ e.Due := by
  intro e he
  refine (applied_adds h he).imp_right fun hadds htype => ?_
  cases hadds with
  | retried => exact ⟨_, rfl⟩
  | dropped => cases htype

theorem due_of_asWritten {e e' : OutboxEvent} (h : e.Due) (hsame : e'.asWritten = e.asWritten) :
    e'.Due := by
  intro htype
  rw [asWritten_availableAt hsame]
  exact h ((asWritten_eventType hsame).symm.trans htype)

theorem due_step (hs : ∀ e ∈ s.store.outbox, e.Due) (h : Change env s a s') :
    ∀ e ∈ s'.store.outbox, e.Due := by
  intro e he
  cases h with
  | quiet _ _ _ ho => exact hs e (ho ▸ he)
  | call => exact hs e he
  | reserve _ _ _ _ _ hres =>
    rw [afterReserve_store] at he
    exact (reserved_due hres e he).elim (hs e) id
  | apply _ _ _ _ happ => exact (applied_due happ e he).elim (hs e) id
  | claim _ _ _ _ heq =>
    subst heq
    obtain ⟨f, hf, hsame⟩ := mem_claimed_asWritten he
    exact due_of_asWritten (hs f hf) hsame
  | recordPublished | recordRaised =>
    obtain ⟨f, hf, hsame⟩ := mem_saved_asWritten he
    exact due_of_asWritten (hs f hf) hsame
  | commit _ _ _ hcom =>
    rcases commitBulk_event hcom he with he | ⟨i, r, -, rfl⟩
    · exact hs e he
    · intro htype
      cases htype

theorem onTime_step (ht : Traced s) (hs : OnTime s) (h : step env s a = some s') : OnTime s' := by
  have hchange := change_of_step h
  refine ⟨due_step hs.due hchange, fun c hc e he hid t hat => ?_⟩
  -- an event that was claimed before the step is as it was written
  have old {m : Message} (hm : s.store.Announced m) (hevent : m.event = c.event) :
      ∃ f ∈ s.store.outbox, f.id = c.event ∧ f.availableAt = some t ∧ 0 < f.attempts := by
    obtain ⟨f, hf, hfid, -, -, hpos⟩ := hm
    obtain ⟨f', hf', hsame, -⟩ := hchange.extends.outbox hf
    obtain rfl : f' = e := Table.eq_of_key hf' he
      ((asWritten_id hsame).trans (hfid.trans (hevent.trans hid.symm)))
    exact ⟨f, hf, hfid.trans hevent, (asWritten_availableAt hsame).symm.trans hat, hpos⟩
  have logged (hc : c ∈ s.publishes) : t ≤ c.time := by
    obtain ⟨m, hevent, hm⟩ := ht.publishes c hc
    obtain ⟨f, hf, hfid, hfat, -⟩ := old hm hevent
    exact hs.publishes c hc f hf hfid t hfat
  rcases publishers_of_step h with ⟨-, hp⟩ | ⟨p, hp⟩
  · exact logged (hp ▸ hc)
  · rcases publisher_publishes hp hc with hc | ⟨k, row, todo, hload, hkid, htime⟩
    · exact logged hc
    · have hm := ht.claims p k (by rw [hload]; exact List.mem_cons_self)
      obtain ⟨f, hf, -, hfat, hpos⟩ := old hm hkid
      rw [htime]
      exact ht.due f hf hpos t hfat

theorem onTime_reach {ok : State → Action → Prop} (h : (machine env).Reach ok s) : OnTime s := by
  refine Machine.Reach.induct ?_ (fun t a t' hreach ht _ hstep => ?_) h
  · rintro _ ⟨now, rfl⟩
    exact onTime_initial now
  · exact onTime_step (traced_reach hreach) ht hstep

/-! ## The theorem -/

/-- Worker `w` is to reserve on a message that was published from the retry event `e`, due at `t`;
`n` is the notification's row. -/
structure Retrying (s : State) (w : Nat) (e : OutboxEvent) (t : Time) (n : Notification) :
    Prop where
  delivery : ∃ d, s.workers w = .received d ∧ d.message.event = e.id ∧
    s.store.notifications.get d.message.payload.notificationId = some n
  event : e ∈ s.store.outbox ∧ e.eventType = .retryScheduled ∧ e.availableAt = some t

/-- After the reserve of worker `w`, the notification is final or `w` holds its next attempt. -/
def GoesThrough (s' : State) (w : Nat) (n : Notification) : Prop :=
  ∃ n', s'.store.notifications.get n.id = some n' ∧ (n'.isFinal = true ∨
    ∃ f, (s'.workers w).flight? = some f ∧ f.loaded = n' ∧ n'.attempts = n.attempts + 1)

/-- Retry messages are on time: none is early, and none is turned away by a lock that was not
renewed. A reserve may raise where `excused` holds of its second reading of the clock. -/
structure RetryOnTime (env : Deployment) (excused : Time → Prop) (s : State) : Prop where
  due : ∀ e ∈ s.store.outbox, e.Due
  publishes : ∀ c ∈ s.publishes, ∀ e ∈ s.store.outbox, e.id = c.event →
    ∀ t, e.availableAt = some t → t ≤ c.time
  renewed : ∀ w e t n t₁, Retrying s w e t n → s.now ≤ t₁ → n.hasActiveProcessingLock t₁ = true →
    ∃ lockUntil, n.processingLockUntil = some lockUntil ∧ t < lockUntil
  through : ∀ w e t n t₁ t₂ t₃ ids s', Retrying s w e t n →
    (∀ lockUntil, n.processingLockUntil = some lockUntil → lockUntil ≤ t) →
    step env s (.worker w (.reserve t₁ t₂ t₃ ids)) = some s' →
    GoesThrough s' w n ∨ excused t₂ ∧ s'.store = s.store

theorem due_of_retrying (ht : Traced s) {w : Nat} {e : OutboxEvent} {t : Time} {n : Notification}
    (h : Retrying s w e t n) : t ≤ s.now := by
  obtain ⟨⟨d, hw, hevent, -⟩, he, -, hat⟩ := h
  have hd : (s.workers w).delivery? = some d := by
    rw [hw]
    rfl
  obtain ⟨f, hf, hid, -, -, hpos⟩ := ht.known d.message (known_of_delivery hd)
  obtain rfl : f = e := Table.eq_of_key hf he (hid.trans hevent)
  exact ht.due f hf hpos t hat

theorem unlocked_of_le {n : Notification} {now t' : Time}
    (hlock : ∀ lockUntil, n.processingLockUntil = some lockUntil → lockUntil ≤ now)
    (hle : now ≤ t') : n.hasActiveProcessingLock t' = false := by
  rw [Notification.hasActiveProcessingLock, Bool.and_eq_false_iff]
  right
  cases hL : n.processingLockUntil with
  | none => rfl
  | some lockUntil =>
    have hended := (hlock lockUntil hL).trans hle
    simpa using hended

/-- A reserve that finds no active lock and does not raise. -/
theorem reserved_goes_through {w : Nat} {d : Delivery} {n : Notification} {t₁ t₂ t₃ : Time}
    {ids : EventIds} {st : Store} {out : Option Notification}
    (hget : s.store.notifications.get d.message.payload.notificationId = some n)
    (hunlocked : n.hasActiveProcessingLock t₁ = false)
    (h : Reserved env.toSettings s.store d.message.payload.notificationId d.message.payload
      t₁ t₂ t₃ ids st out) :
    GoesThrough (afterReserve s w d t₃ (.ok (st, out))) w n := by
  have hself : s.store.notifications.get n.id = some n :=
    Table.get_of_mem (Table.mem_of_get hget)
  cases h with
  | missing hnone => cases hget.symm.trans hnone
  | final hget' hfinal =>
    cases hget.symm.trans hget'
    exact ⟨n, hself, .inl hfinal⟩
  | covered hget' _ hactive | deferred hget' _ hactive =>
    cases hget.symm.trans hget'
    cases hunlocked.symm.trans hactive
  | refused hget' =>
    cases hget.symm.trans hget'
    refine ⟨n.droppedBeforeProvider, ?_, .inl isFinal_droppedBeforeProvider⟩
    exact (get_saveNotification_self _ hself).trans
      (congrArg some (writeBack_current rfl rfl rfl rfl rfl rfl rfl))
  | @attempt m lockUntil hget' =>
    cases hget.symm.trans hget'
    refine ⟨n.reserved lockUntil, ?_, .inr ?_⟩
    · exact (get_saveNotification_self _ hself).trans
        (congrArg some (writeBack_current rfl rfl rfl rfl rfl rfl rfl))
    · rw [afterReserve_flight, if_pos rfl]
      exact ⟨_, rfl, rfl, rfl⟩

/-- What a reserve does with a retry message whose lock was not renewed. -/
theorem retry_goes_through (ht : Traced s) {w : Nat} {e : OutboxEvent} {t t₁ t₂ t₃ : Time}
    {n : Notification} {ids : EventIds} (h : Retrying s w e t n)
    (hlock : ∀ lockUntil, n.processingLockUntil = some lockUntil → lockUntil ≤ t)
    (hstep : step env s (.worker w (.reserve t₁ t₂ t₃ ids)) = some s') :
    GoesThrough s' w n ∨
      addSeconds t₂ env.processingLockTtlSeconds = none ∧ s'.store = s.store := by
  have hdue := due_of_retrying ht h
  obtain ⟨⟨d, hw, -, hget⟩, -⟩ := h
  have hw' : workerStep env s w (.reserve t₁ t₂ t₃ ids) = some s' := hstep
  simp only [workerStep, hw] at hw'
  split at hw'
  · next hc =>
    obtain ⟨h₁, h₂, h₃, hfresh⟩ := hc
    have hunlocked : n.hasActiveProcessingLock t₁ = false :=
      unlocked_of_le hlock (hdue.trans h₁)
    cases hw'
    generalize hres : reserve env.toSettings s.store _ _ t₁ t₂ t₃ ids = r
    cases r with
    | ok reserved => exact .inl (reserved_goes_through hget hunlocked (reserve_ok hres))
    | error raised =>
      refine .inr ⟨?_, rfl⟩
      by_contra hadd
      -- nothing else makes a reserve without an active lock raise
      obtain ⟨reserved, hok⟩ := reserve_total (fun m hm hactive => by
          cases hget.symm.trans hm
          cases hunlocked.symm.trans hactive)
        (fun e he heq => hfresh.2 ids.rowId (by simp) (heq ▸ mem_uuids_of_event he))
        (.inr hadd)
      cases hok.symm.trans hres
  · cases hw'

/-- **Retry messages are on time** in every run, except that a reserve raises where the lock it
has to set is not a `datetime`. -/
theorem retry_on_time (h : (machine env).Reach Machine.Always s) :
    RetryOnTime env (fun t₂ => addSeconds t₂ env.processingLockTtlSeconds = none) s := by
  have ht := traced_reach h
  have hs := onTime_reach h
  refine ⟨hs.due, hs.publishes, ?_, ?_⟩
  · intro w e t n t₁ hretry hnow hactive
    have hdue := due_of_retrying ht hretry
    by_contra hnone
    have hended : n.hasActiveProcessingLock t₁ = false := by
      refine unlocked_of_le (fun lockUntil hL => ?_) hnow
      exact (not_lt.1 fun hlt => hnone ⟨lockUntil, hL, hlt⟩).trans hdue
    cases hended.symm.trans hactive
  · intro w e t n t₁ t₂ t₃ ids s' hretry hlock hstep
    exact retry_goes_through ht hretry hlock hstep

/-- The first attempt meets a temporary error. Its retry event, with id 7, is published when it is
due, and worker 1 gets the message. -/
def Sample.retried : List Action :=
  Sample.attempt ++
    [.worker 0 .send, .worker 0 (.answer Sample.temporaryError), .worker 0 (.apply 0 0 ⟨6, 7⟩),
      .publisher 1 (.claim (Sample.sec 10) (Sample.sec 10) (Sample.sec 10) []),
      .publisher 1 .load, .publisher 1 .publish,
      .worker 1 (.get .high ⟨7, .retryScheduled,
        { Sample.message.payload with
          attempt := 2
          retryDelaySeconds := some 10
          errorMessage := some "provider is unavailable" }⟩)]

/-- Worker 1 is to reserve on the message of the sample's retry event. -/
def Sample.retrying (s : State) : Bool :=
  (s.workers 1).delivery?.any (fun d => s.workers 1 = .received d && d.message.event = 7 &&
    d.message.payload.notificationId = 1) &&
  (s.store.notifications.get 1).any (·.processingLockUntil = some (Sample.sec 10)) &&
  (s.store.outbox.get 7).any fun e =>
    e.eventType = .retryScheduled && e.availableAt = some (Sample.sec 10)

theorem retrying_of_sample (h : Sample.retrying s = true) :
    ∃ e n, Retrying s 1 e (Sample.sec 10) n ∧ s.store.notifications.get 1 = some n ∧
      n.processingLockUntil = some (Sample.sec 10) := by
  simp only [Sample.retrying, Bool.and_eq_true, Option.any_eq_true, decide_eq_true_eq] at h
  obtain ⟨⟨⟨d, -, ⟨hw, hevent⟩, hid⟩, n, hn, hL⟩, e, he, htype, hat⟩ := h
  obtain ⟨hmem, heid⟩ := Table.get_eq_some.1 he
  exact ⟨e, n, ⟨⟨d, hw, hevent.trans heid.symm, hid ▸ hn⟩, hmem, htype, hat⟩, hn, hL⟩

theorem retry_on_time_second : ∃ s e n, Retrying s 1 e (Sample.sec 10) n ∧
    n.processingLockUntil = some (Sample.sec 10) ∧
      RetryOnTime Sample.env
        (fun t₂ => addSeconds t₂ Sample.env.processingLockTtlSeconds = none) s := by
  obtain ⟨s, hrun, hs⟩ := Machine.Run.exists_of_exec_always (machine Sample.env) (.initial 0)
    Sample.retried Sample.retrying (by decide)
  obtain ⟨e, n, hretry, -, hL⟩ := retrying_of_sample hs
  exact ⟨s, e, n, hretry, hL, retry_on_time (.run (.init ⟨0, rfl⟩) hrun)⟩

/-- **A retry may raise**: the reserve of the second attempt, ten seconds after the first, would
lock the notification beyond the `datetime` range. -/
theorem retry_not_through : ¬ ∀ (env : Deployment) (s : State),
    (machine env).Reach Machine.Always s → RetryOnTime env (fun _ => False) s := by
  intro h
  obtain ⟨s, hrun, hs⟩ := Machine.Run.exists_of_exec_always (machine Sample.longLocks)
    (.initial 0) Sample.retried
    (fun s => Sample.retrying s && ((machine Sample.longLocks).exec s
      [.worker 1 (.reserve (Sample.sec 10) (Sample.sec 10) (Sample.sec 10) ⟨8, 9⟩)]).any fun s' =>
        (s'.workers 1).flight? = none &&
          (s'.store.notifications.get 1).any (·.isFinal = false)) (by decide)
  rw [Bool.and_eq_true] at hs
  obtain ⟨e, n, hretry, hn, hL⟩ := retrying_of_sample hs.1
  obtain ⟨s', hstep, hs'⟩ := Machine.step_of_exec hs.2
  simp only [Bool.and_eq_true, Option.any_eq_true, decide_eq_true_eq] at hs'
  obtain ⟨hidle, n', hn', hopen⟩ := hs'
  have hlock : ∀ lockUntil, n.processingLockUntil = some lockUntil → lockUntil ≤ Sample.sec 10 := by
    intro lockUntil hlockUntil
    cases hL.symm.trans hlockUntil
    exact le_rfl
  rcases (h Sample.longLocks s (.run (.init ⟨0, rfl⟩) hrun)).through 1 e _ n _ _ _ _ s' hretry hlock
    hstep with ⟨m, hm, hthrough⟩ | ⟨hfalse, -⟩
  · rw [Table.get_key hn] at hm
    cases hn'.symm.trans hm
    rcases hthrough with hfinal | ⟨f, hf, -⟩
    · cases hopen.symm.trans hfinal
    · cases hidle.symm.trans hf
  · exact hfalse

end NotificationSystem
