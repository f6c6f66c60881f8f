import NotificationSystem.NoLoss

/-!
# At most one deferred redelivery

Two writers add retry events: a reserve that finds the lock active, due when the lock ends,
and an apply that schedules a retry, due at the lock it sets. Their due times grow as long as
no retry moves the lock back before an event that is still to come.

* `Spaced` — how many retry events may be due at or after the lock.
* `redelivery_not_unique` — a short backoff after a deferral leaves two of them.
* `redelivery_unique` — otherwise there is at most one, and a reserve does not raise.
-/

namespace NotificationSystem

open Lib

variable {env : Deployment} {s s' : State} {a : Action} {id : Uuid} {cfg : Settings}
  {l l' : Lifecycle} {p q : Time → Bool} {e : OutboxEvent}

/-! ## Counting retry events by their due time -/

/-- A retry event whose due time satisfies `p`. -/
def OutboxEvent.retryDue (e : OutboxEvent) (p : Time → Bool) : Bool :=
  e.eventType = .retryScheduled && e.availableAt.any p

/-- The number of the notification's retry events whose due time satisfies `p`. -/
def Lifecycle.retriesDue (l : Lifecycle) (p : Time → Bool) : Nat := l.events.countP (·.retryDue p)

theorem retryDue_iff : e.retryDue p = true ↔
    e.eventType = .retryScheduled ∧ ∃ t, e.availableAt = some t ∧ p t = true := by
  simp [OutboxEvent.retryDue, Option.any_eq_true]

theorem retriesDue_mono (h : ∀ t, p t = true → q t = true) :
    l.retriesDue p ≤ l.retriesDue q := by
  refine List.countP_mono_left fun e _ he => ?_
  obtain ⟨htype, t, hat, hp⟩ := retryDue_iff.1 he
  exact retryDue_iff.2 ⟨htype, t, hat, h t hp⟩

theorem retriesDue_eq_zero : l.retriesDue p = 0 ↔ ∀ e ∈ l.events, e.eventType = .retryScheduled →
    ∀ t, e.availableAt = some t → p t = false := by
  simp only [Lifecycle.retriesDue, List.countP_eq_zero, retryDue_iff, not_and, not_exists,
    Bool.not_eq_true]

theorem retriesDue_asWritten (h : l'.events.map (·.asWritten) = l.events.map (·.asWritten)) :
    l'.retriesDue p = l.retriesDue p := countP_asWritten (fun _ => rfl) h

theorem retriesDue_snoc (h : l'.events = l.events ++ [e]) :
    l'.retriesDue p = l.retriesDue p + if e.retryDue p then 1 else 0 := by
  rw [Lifecycle.retriesDue, h, List.countP_append, List.countP_singleton]
  rfl

theorem retriesDue_pos (h : l'.events = l.events ++ [e]) (hdue : e.retryDue p = true) :
    0 < l'.retriesDue p := by
  rw [retriesDue_snoc h, if_pos hdue]
  exact Nat.succ_pos _

/-! ## The invariant -/

/-- The retry events of an open notification that are still to come: there is at most one, or
none is due after the lock and at most one when it ends. -/
def Lifecycle.Spaced (l : Lifecycle) : Prop :=
  ∀ n, l.row = some n → n.isFinal = false →
    l.retriesDue (l.now < ·) ≤ 1 ∨
      ∃ lockUntil, n.status = .sent ∧ n.processingLockUntil = some lockUntil ∧
        l.retriesDue (fun t => l.now < t && lockUntil < t) = 0 ∧
        l.retriesDue (fun t => l.now < t && lockUntil ≤ t) ≤ 1

/-- A retry of an open notification is due after every retry event still to come, and locks
the row until then; or it is due at once, and at most one other is still to come. -/
def RetriesLast (env : Deployment) (s : State) : Action → Prop
  | .worker w (.apply t₁ t₂ _) =>
    ∀ f result lockUntil n, (s.workers w).flight? = some f → f.result = some result →
      (result.success && result.delivered) = false →
      env.RetryLock f.loaded.attempts result t₁ lockUntil →
      s.store.notifications.get f.loaded.id = some n → n.isFinal = false →
      ((f.loaded.processingLockUntil = some lockUntil → n.processingLockUntil = some lockUntil) ∧
        (s.lifecycle n.id).retriesDue (fun t => t₂ < t && lockUntil ≤ t) = 0) ∨
      (lockUntil ≤ t₂ ∧ (s.lifecycle n.id).retriesDue (t₂ < ·) ≤ 1)
  | _ => True

theorem spaced_of_mono (hl : l.Spaced) (hnow : l.now ≤ l'.now) (hrow : l'.row = l.row)
    (hdue : ∀ p, l'.retriesDue p = l.retriesDue p) : l'.Spaced := by
  intro n hn hopen
  simp only [hdue]
  rcases hl n (hrow ▸ hn) hopen with hle | ⟨lockUntil, hsent, hL, hzero, hone⟩
  · left
    refine (retriesDue_mono fun t ht => ?_).trans hle
    simp only [decide_eq_true_eq] at ht ⊢
    exact lt_of_le_of_lt hnow ht
  · refine .inr ⟨lockUntil, hsent, hL,
      Nat.le_zero.1 ((retriesDue_mono fun t ht => ?_).trans hzero.le),
      (retriesDue_mono fun t ht => ?_).trans hone⟩ <;>
    · simp only [Bool.and_eq_true, decide_eq_true_eq] at ht ⊢
      exact ⟨lt_of_le_of_lt hnow ht.1, ht.2⟩

theorem retriesDue_at_lock {now lockUntil : Time} (hevents : l'.events = l.events ++ [e])
    (hat : e.availableAt = some lockUntil)
    (hzero : l.retriesDue (fun t => now < t && lockUntil ≤ t) = 0) :
    l'.retriesDue (fun t => now < t && lockUntil < t) = 0 ∧
      l'.retriesDue (fun t => now < t && lockUntil ≤ t) ≤ 1 := by
  constructor
  · have hold : l.retriesDue (fun t => now < t && lockUntil < t) = 0 := by
      refine Nat.le_zero.1 ((retriesDue_mono fun t ht => ?_).trans hzero.le)
      simp only [Bool.and_eq_true, decide_eq_true_eq] at ht ⊢
      exact ⟨ht.1, ht.2.le⟩
    rw [retriesDue_snoc hevents, hold]
    simp [OutboxEvent.retryDue, hat]
  · rw [retriesDue_snoc hevents, hzero]
    split <;> simp

/-- An event that is still to come and covers the lock is found by the query. -/
theorem no_retry_beyond (ht : Traced s) {n : Notification} {t₁ : Time} (hn : n.id = id)
    (hnow : s.now ≤ t₁) (hlock : n.hasActiveProcessingLock t₁ = true) {lockUntil : Time}
    (hL : n.processingLockUntil = some lockUntil)
    (hcov : ∀ e ∈ (s.lifecycle id).events, e.coversLock n = false) :
    (s.lifecycle id).retriesDue (lockUntil ≤ ·) = 0 := by
  refine retriesDue_eq_zero.2 fun e he htype t hat => ?_
  by_contra hle
  simp only [decide_eq_false_iff_not, not_not] at hle
  obtain ⟨hmem, hagg⟩ := List.mem_filter.1 he
  rw [decide_eq_true_eq] at hagg
  simp only [Notification.hasActiveProcessingLock, hL, Option.any_some, Bool.and_eq_true,
    decide_eq_true_eq] at hlock
  obtain ⟨hpending, -⟩ := unclaimed_of_future ht hmem hat
    (lt_of_le_of_lt hnow (lt_of_lt_of_le hlock.2 hle))
  have := hcov e he
  simp [OutboxEvent.coversLock, hagg, hn, htype, hL, hat, hle, hpending] at this

theorem spaced_step (hok : RetriesLast env s a) (ht : Traced s) (hs : (s.lifecycle id).Sound)
    (hc : (s.lifecycle id).Counted env.toSettings) (hl : (s.lifecycle id).Spaced)
    (h : (s.lifecycle id).Step env.toSettings a l') : l'.Spaced := by
  cases h with
  | quiet hnow hrow _ he =>
    exact spaced_of_mono hl hnow hrow fun p => retriesDue_asWritten he
  | create =>
    intro n _ _
    exact .inl (by simp [Lifecycle.retriesDue, OutboxEvent.retryDue, createdEvent])
  | call => exact spaced_of_mono hl le_rfl rfl fun _ => rfl
  | @reserve w t₁ t₂ t₃ lockUntil ids n payload h₁ h₂ h₃ hrow hopen hlock =>
    intro m _ _
    left
    rcases hl n hrow hopen with hle | ⟨oldLock, hsent, hL, hzero, -⟩
    · refine (retriesDue_mono fun t ht => ?_).trans hle
      simp only [decide_eq_true_eq] at ht ⊢
      exact lt_of_le_of_lt (h₁.trans (h₂.trans h₃)) ht
    · -- what is due after the old lock's end is not to come any more
      have hended := lock_ended hsent hL hlock
      refine (retriesDue_mono fun t ht => ?_).trans (hzero.le.trans (Nat.zero_le 1))
      simp only [Bool.and_eq_true, decide_eq_true_eq] at ht ⊢
      exact ⟨lt_of_le_of_lt (h₁.trans (h₂.trans h₃)) ht,
        lt_of_le_of_lt (hended.trans (h₂.trans h₃)) ht⟩
  | @defer w t₁ t₂ t₃ ids n payload h₁ h₂ h₃ hrow hopen hlock hcov =>
    intro m hm _
    obtain rfl := Option.some.inj (hrow.symm.trans hm)
    have hsent : n.status = .sent := by
      simp only [Notification.hasActiveProcessingLock, Bool.and_eq_true, decide_eq_true_eq] at hlock
      exact hlock.1
    obtain ⟨lockUntil, hL⟩ := hs.sent n hrow hsent
    have hbeyond := no_retry_beyond ht (Table.get_key hrow) h₁ hlock hL hcov
    have hzero : (s.lifecycle id).retriesDue (fun t => t₃ < t && lockUntil ≤ t) = 0 := by
      refine Nat.le_zero.1 ((retriesDue_mono fun t ht => ?_).trans hbeyond.le)
      rw [Bool.and_eq_true] at ht
      exact ht.2
    exact .inr ⟨lockUntil, hsent, hL, retriesDue_at_lock (l := s.lifecycle id) rfl hL hzero⟩
  | refuse =>
    intro m hm hopen
    cases hm
    cases isFinal_droppedBeforeProvider.symm.trans hopen
  | deliver _ _ hf =>
    intro m hm hopen
    cases hm
    cases (isFinal_markedDelivered (hs.flights _ _ hf).1).symm.trans hopen
  | drop _ _ hf =>
    intro m hm hopen
    cases hm
    cases (isFinal_droppedByResult (hs.flights _ _ hf).1).symm.trans hopen
  | @retry w t₁ t₂ lockUntil delay ids f result n h₁ h₂ hf hr hdel hretry hrow =>
    intro m hm hopen
    cases hm
    rw [isFinal_awaitingRetry] at hopen
    have hsent := sent_of_flight hs hc hf hrow hopen
    obtain ⟨hflight, hid⟩ := flightOf_eq_some.1 hf
    rcases hok f result lockUntil n hflight hr hdel (retryLock_of_retryUntil hretry) (hid ▸ hrow)
      hopen with ⟨hwritten, hzero⟩ | ⟨hdue, hone⟩
    · right
      rw [Table.get_key hrow] at hzero
      refine ⟨lockUntil, by simp [Notification.writeBack, Notification.awaitingRetry,
        Notification.withError, hsent], ?_, retriesDue_at_lock (l := s.lifecycle id) rfl rfl hzero⟩
      simp only [Notification.writeBack, Notification.awaitingRetry]
      unfold writeColumn
      split
      · next heq => exact hwritten heq.symm
      · rfl
    · left
      rw [retriesDue_snoc (l := s.lifecycle id) rfl]
      rw [Table.get_key hrow] at hone
      simpa [OutboxEvent.retryDue, retryEvent, not_lt.2 hdue] using hone

theorem spaced_reach (h : (machine env).Reach (RetriesLast env) s) (id : Uuid) :
    (s.lifecycle id).Spaced := by
  refine lifecycle_induct (fun now n hn => ?_) (fun t a l' ht hok hl hstep => ?_) h
  · cases hn
  · exact spaced_step hok (traced_reach ht) (sound_reach ht id) (counted_reach ht id) hl hstep

/-! ## The query finds at most one event -/

/-- While the lock is active, the query finds at most one event. -/
theorem deferredRedeliveries_length (hl : (s.lifecycle id).Spaced) {n : Notification} {t : Time}
    (hn : s.store.notifications.get id = some n) (hnow : s.now ≤ t)
    (hlock : n.hasActiveProcessingLock t = true) :
    (deferredRedeliveries s.store n).length ≤ 1 := by
  simp only [Notification.hasActiveProcessingLock, Bool.and_eq_true, decide_eq_true_eq] at hlock
  obtain ⟨hsent, hactive⟩ := hlock
  obtain ⟨lockUntil, hL, hlt⟩ := (Option.any_eq_true _ _).1 hactive
  rw [decide_eq_true_eq] at hlt
  have hfound : (deferredRedeliveries s.store n).length ≤
      (s.lifecycle id).retriesDue (fun u => s.now < u && lockUntil ≤ u) := by
    rw [deferredRedeliveries, ← List.countP_eq_length_filter, Lifecycle.retriesDue]
    refine le_of_le_of_eq (List.countP_mono_left (q := fun e => e.retryDue
      (fun u => s.now < u && lockUntil ≤ u) && e.aggregateId = id) fun e _ he => ?_)
      List.countP_filter.symm
    simp only [OutboxEvent.coversLock, hL, Option.any_some, Bool.and_eq_true,
      decide_eq_true_eq] at he
    obtain ⟨⟨⟨hagg, htype⟩, havail⟩, -⟩ := he
    obtain ⟨u, hu, hle⟩ := (Option.any_eq_true _ _).1 havail
    rw [decide_eq_true_eq] at hle
    simp [OutboxEvent.retryDue, htype, hu, hle, hagg, Table.get_key hn,
      lt_of_le_of_lt hnow (lt_of_lt_of_le hlt hle)]
  refine hfound.trans ?_
  rcases hl n hn (isFinal_of_open (.inr hsent)) with hle | ⟨lockUntil', -, hL', -, hone⟩
  · refine (retriesDue_mono fun u hu => ?_).trans hle
    simp only [Bool.and_eq_true, decide_eq_true_eq] at hu ⊢
    exact hu.1
  · obtain rfl := Option.some.inj (hL.symm.trans hL')
    exact hone

theorem scalarOneOrNone_of_length {α : Type*} {xs : List α} (h : xs.length ≤ 1) :
    ∃ o, scalarOneOrNone xs = .ok o := by
  match xs, h with
  | [], _ => exact ⟨none, rfl⟩
  | [x], _ => exact ⟨some x, rfl⟩

/-- A reserve does not raise when its query finds at most one event, its new event has a fresh
id and the lock it may set is a `datetime`. -/
theorem reserve_total {st : Store} {payload : Payload} {t₁ t₂ t₃ : Time} {ids : EventIds}
    (hone : ∀ n, st.notifications.get id = some n → n.hasActiveProcessingLock t₁ = true →
      (deferredRedeliveries st n).length ≤ 1)
    (hfresh : ∀ e ∈ st.outbox, e.id ≠ ids.rowId)
    (hadd : (∃ n, st.notifications.get id = some n ∧ n.hasActiveProcessingLock t₁ = true) ∨
      addSeconds t₂ cfg.processingLockTtlSeconds ≠ none) :
    ∃ r, reserve cfg st id payload t₁ t₂ t₃ ids = .ok r := by
  unfold reserve
  split
  · exact ⟨_, rfl⟩
  · next n hget =>
    split
    · exact ⟨_, rfl⟩
    · split
      · next hlock =>
        obtain ⟨o, ho⟩ := scalarOneOrNone_of_length (hone n hget hlock)
        cases o with
        | some e => exact ⟨(st, none), by simp [ensureDeferredRedelivery, ho]⟩
        | none =>
          obtain ⟨st', hst'⟩ := addOutboxEvent_of_fresh st
            (deferredEvent n payload t₂ t₃ ids) hfresh
          exact ⟨(st', none), by simp [ensureDeferredRedelivery, ho, hst']⟩
      · next hlock =>
        split
        · obtain ⟨st', hst'⟩ := addOutboxEvent_of_fresh
            ((st.saveNotification n n.droppedBeforeProvider).addHistory
              ⟨n.id, .dropped, n.droppedBeforeProvider.lastError, t₃⟩)
            (failedEvent n.droppedBeforeProvider none n.droppedBeforeProvider.lastError
              t₂ t₃ ids) hfresh
          exact ⟨(st', none), by simp [dropBeforeProvider, hst']⟩
        · split
          · next hnone =>
            rcases hadd with ⟨m, hm, hactive⟩ | hadd
            · obtain rfl := Option.some.inj (hget.symm.trans hm)
              exact absurd hactive hlock
            · exact absurd hnone hadd
          · exact ⟨_, rfl⟩

/-- **A reserve never meets two deferred redeliveries**, in every run whose retries come last.
While the lock is active at most one event covers it, and a reserve does not raise, whatever
message it handles, unless the lock it has to set is not a `datetime`. -/
theorem redelivery_unique (h : (machine env).Reach (RetriesLast env) s) :
    (∀ id n, s.store.notifications.get id = some n → n.hasActiveProcessingLock s.now = true →
      (deferredRedeliveries s.store n).length ≤ 1) ∧
    ∀ w d t₁ t₂ t₃ ids, s.workers w = .received d → s.now ≤ t₁ →
      s.store.Fresh [ids.eventId, ids.rowId] →
      ((∃ n, s.store.notifications.get d.message.payload.notificationId = some n ∧
          n.hasActiveProcessingLock t₁ = true) ∨
        addSeconds t₂ env.processingLockTtlSeconds ≠ none) →
      ∃ r, reserve env.toSettings s.store d.message.payload.notificationId d.message.payload
        t₁ t₂ t₃ ids = .ok r := by
  constructor
  · intro id n hn hlock
    exact deferredRedeliveries_length (spaced_reach h id) hn le_rfl hlock
  · intro w d t₁ t₂ t₃ ids _ hnow hfresh hadd
    refine reserve_total (fun n hn hlock => ?_) (fun e he heq => ?_) hadd
    · exact deferredRedeliveries_length (spaced_reach h _) hn hnow hlock
    · exact hfresh.2 ids.rowId (by simp) (heq ▸ mem_uuids_of_event he)

/-- The second duplicate of a locked notification does not raise. -/
theorem redelivery_unique_duplicate : ∃ (s : State) (n : Notification),
    s.store.notifications.get 1 = some n ∧ (deferredRedeliveries s.store n).length ≤ 1 ∧
      s.workers 2 = .received ⟨Sample.message, .high, true⟩ ∧
      ∃ r, reserve Sample.env.toSettings s.store 1 Sample.message.payload s.now s.now s.now
        ⟨6, 7⟩ = .ok r := by
  obtain ⟨s, hrun, hs⟩ := Machine.Run.exists_of_exec (machine Sample.env)
    (RetriesLast Sample.env) (.initial 0)
    (Sample.attempt ++
      [.worker 0 (.disconnect false), .worker 1 (.get .high Sample.message),
        .worker 1 (.reserve 0 0 0 ⟨4, 5⟩), .worker 1 (.disconnect false),
        .worker 2 (.get .high Sample.message)])
    (fun s => s.workers 2 = .received ⟨Sample.message, .high, true⟩ &&
      s.store.Fresh [6, 7] && (s.store.notifications.get 1).any (·.hasActiveProcessingLock s.now))
    (by simp [Sample.attempt, Sample.creation, Sample.publication, RetriesLast]) (by decide)
  simp only [Bool.and_eq_true, decide_eq_true_eq, Option.any_eq_true] at hs
  obtain ⟨⟨hw, hfresh⟩, n, hn, hlock⟩ := hs
  have hall := redelivery_unique (.run (.init ⟨0, rfl⟩) hrun)
  exact ⟨s, n, hn, hall.1 1 n hn hlock, hw,
    hall.2 2 _ s.now s.now s.now ⟨6, 7⟩ hw le_rfl hfresh (.inl ⟨n, hn, hlock⟩)⟩

/-- **Two events cover one lock**: worker 1 defers a duplicate to the end of worker 0's lock,
at 60 s, and worker 0's retry then locks the row until 12 s. -/
theorem redelivery_not_unique : ¬ ∀ (env : Deployment) (s : State),
    (machine env).Reach Machine.Always s → ∀ id n, s.store.notifications.get id = some n →
      n.hasActiveProcessingLock s.now = true → (deferredRedeliveries s.store n).length ≤ 1 := by
  intro h
  obtain ⟨s, hrun, hs⟩ := Machine.Run.exists_of_exec_always (machine Sample.env) (.initial 0)
    (Sample.attempt ++
      [.worker 0 .send, .worker 0 (.disconnect false), .worker 1 (.get .high Sample.message),
        .worker 1 (.reserve (Sample.sec 1) (Sample.sec 1) (Sample.sec 1) ⟨4, 5⟩),
        .worker 0 (.answer Sample.temporaryError),
        .worker 0 (.apply (Sample.sec 2) (Sample.sec 2) ⟨6, 7⟩)])
    (fun s => (s.store.notifications.get 1).any fun n => n.hasActiveProcessingLock s.now &&
      (deferredRedeliveries s.store n).length = 2) (by decide)
  simp only [Option.any_eq_true, Bool.and_eq_true, decide_eq_true_eq] at hs
  obtain ⟨n, hn, hlock, htwo⟩ := hs
  have hle := h Sample.env s (.run (.init ⟨0, rfl⟩) hrun) 1 n hn hlock
  omega

end NotificationSystem
