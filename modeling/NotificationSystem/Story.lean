import NotificationSystem.Redelivery

/-!
# One story

When every result is applied before its own lock ends, the row of an attempt's notification
is what its reserve left, so each transaction continues the story of the one before. The
history then reads `queued`, one `sent` for each attempt, and at most one final entry.

* `Owned` — the row is the instance of any attempt whose lock has not ended.
* `Told` — what the row, the history and the outbox say of each other.
* `same_story` — both hold in every run whose results are in time.
-/

namespace NotificationSystem

open Lib

variable {env : Deployment} {s s' : State} {a : Action} {id : Uuid} {cfg : Settings}
  {l l' : Lifecycle}

/-- A result is applied before the lock of its own reservation ends. -/
def AppliesInTime (s : State) : Action → Prop
  | .worker w (.apply _ _ _) =>
    ∀ f lockUntil, (s.workers w).flight? = some f →
      f.loaded.processingLockUntil = some lockUntil → s.now < lockUntil
  | _ => True

/-- Until its lock ends, an attempt in flight holds the stored row. -/
def Lifecycle.Owned (l : Lifecycle) : Prop :=
  ∀ w f lockUntil, l.flights w = some f → f.loaded.processingLockUntil = some lockUntil →
    l.now < lockUntil → l.row = some f.loaded

theorem row_of_applies {w : Nat} {t₁ t₂ : Time} {ids : EventIds} {f : Flight} {m : Notification}
    (hok : AppliesInTime s (.worker w (.apply t₁ t₂ ids))) (hs : (s.lifecycle id).Sound)
    (hl : (s.lifecycle id).Owned) (hf : (s.lifecycle id).flights w = some f)
    (hm : (s.lifecycle id).row = some m) : m = f.loaded := by
  obtain ⟨-, lockUntil, hL⟩ := hs.flights w f hf
  have hrow := hl w f lockUntil hf hL (hok f lockUntil (flightOf_eq_some.1 hf).1 hL)
  exact Option.some.inj (hm.symm.trans hrow)

theorem owner_unique (hc : l.Counted cfg) {v w : Nat} {f g : Flight}
    (hf : l.flights v = some f) (hg : l.flights w = some g) (h : f.loaded = g.loaded) : v = w :=
  hc.distinct v w f g hf hg (by rw [h])

theorem owned_step (hok : AppliesInTime s a) (hs : (s.lifecycle id).Sound)
    (hc : (s.lifecycle id).Counted env.toSettings) (hl : (s.lifecycle id).Owned)
    (h : (s.lifecycle id).Step env.toSettings a l') : l'.Owned := by
  intro v g lockUntil hg hL hnow
  have hle := h.now_le
  have before {g₀ : Flight} (hg₀ : (s.lifecycle id).flights v = some g₀)
      (hsame : g.loaded = g₀.loaded) : (s.lifecycle id).row = some g.loaded := by
    rw [hsame]
    exact hl v g₀ lockUntil hg₀ (hsame ▸ hL) (lt_of_le_of_lt hle hnow)
  -- a reserve that finds the row unlocked comes after the end of every lock
  have locked_out {n : Notification} {t : Time} (hv : (s.lifecycle id).flights v = some g)
      (hrow : (s.lifecycle id).row = some n)
      (hlock : n.hasActiveProcessingLock t = false) : lockUntil ≤ t := by
    obtain rfl := Option.some.inj (hrow.symm.trans (before hv rfl))
    exact lock_ended (hs.flights v g hv).1 hL hlock
  -- an apply is by the only attempt that holds the row
  have only {w : Nat} {t₁ t₂ : Time} {ids : EventIds} {f : Flight} {m : Notification}
      (hok : AppliesInTime s (.worker w (.apply t₁ t₂ ids)))
      (hf : (s.lifecycle id).flights w = some f) (hm : (s.lifecycle id).row = some m)
      (hg : Function.update (s.lifecycle id).flights w none v = some g) : False := by
    obtain ⟨hne, hv⟩ := of_update_none hg
    have hrow := hm.symm.trans (before hv rfl)
    rw [row_of_applies hok hs hl hf hm] at hrow
    exact hne (owner_unique hc hv hf (Option.some.inj hrow).symm)
  cases h with
  | quiet _ hrow _ _ _ hfl =>
    obtain ⟨g₀, hg₀, hsame, -⟩ := hfl v g hg
    rw [hrow]
    exact before hg₀ hsame
  | create _ _ _ _ hnone => exact absurd hg (by simp [hnone])
  | call hw =>
    rcases of_update_some hg with ⟨rfl, rfl⟩ | ⟨-, hv⟩
    · exact before hw rfl
    · exact before hv rfl
  | @reserve w t₁ t₂ t₃ lockUntil' ids n payload h₁ h₂ h₃ hrow hopen hlock =>
    rcases of_update_some hg with ⟨rfl, rfl⟩ | ⟨-, hv⟩
    · rfl
    · exact absurd hnow (not_lt.2 ((locked_out hv hrow hlock).trans (h₂.trans h₃)))
  | defer => exact before hg rfl
  | refuse h₁ h₂ h₃ hrow _ hlock =>
    exact absurd hnow (not_lt.2 ((locked_out hg hrow hlock).trans (h₂.trans h₃)))
  | deliver _ _ hf _ _ hm => exact (only hok hf hm hg).elim
  | retry _ _ hf _ _ _ hm => exact (only hok hf hm hg).elim
  | drop _ _ hf _ _ _ hm => exact (only hok hf hm hg).elim

theorem owned_reach (h : (machine env).Reach AppliesInTime s) (id : Uuid) :
    (s.lifecycle id).Owned := by
  refine lifecycle_induct (fun now w f lockUntil hf => ?_) (fun t a l' ht hok hl hstep => ?_) h
  · cases hf
  · exact owned_step hok (sound_reach ht id) (counted_reach ht id) hl hstep

/-! ## The story -/

/-- The statuses of the history, in commit order. -/
def Lifecycle.statuses (l : Lifecycle) : List NotificationStatus := l.history.map (·.status)

/-- The failed events of the notification. -/
def Lifecycle.failedEvents (l : Lifecycle) : Nat := l.events.countP (·.eventType = .failed)

/-- What the row, the history and the outbox say of each other. -/
structure Lifecycle.Told (l : Lifecycle) (n : Notification) : Prop where
  statuses : l.statuses = .queued :: List.replicate n.attempts .sent ++
    if n.isFinal then [n.status] else []
  lock : n.processingLockUntil ≠ none ↔ n.status = .sent
  sent : n.status = .sent → 0 < n.attempts
  delivered : n.status = .delivered → n.lastError = none
  failed : l.failedEvents = if n.status = .dropped then 1 else 0

/-- The story ends with the status of the row. -/
theorem Lifecycle.Told.last {n : Notification} (h : l.Told n) (hs : l.Sound)
    (hrow : l.row = some n) : l.statuses.getLast? = some n.status := by
  rw [h.statuses]
  cases hstatus : n.status with
  | queued => simp [Notification.isFinal, hstatus, hs.queued n hrow hstatus]
  | sent =>
    obtain ⟨k, hk⟩ := Nat.exists_eq_succ_of_ne_zero (h.sent hstatus).ne'
    simp [Notification.isFinal, hstatus, hk, List.replicate_succ', List.getLast?_cons]
  | delivered => simp [Notification.isFinal, hstatus, List.getLast?_cons]
  | dropped => simp [Notification.isFinal, hstatus, List.getLast?_cons]

theorem told_of_eq {n : Notification} (h : l.Told n) (hs : l'.statuses = l.statuses)
    (hf : l'.failedEvents = l.failedEvents) : l'.Told n :=
  ⟨hs.trans h.statuses, h.lock, h.sent, h.delivered, hf.trans h.failed⟩

theorem Lifecycle.Told.of_open {n : Notification} (h : l.Told n) (hopen : n.isFinal = false) :
    l.statuses = .queued :: List.replicate n.attempts .sent ∧ l.failedEvents = 0 := by
  have hstatuses := h.statuses
  have hfailed := h.failed
  have hne : n.status ≠ .dropped := fun hd => by simp [Notification.isFinal, hd] at hopen
  rw [hopen] at hstatuses
  rw [if_neg hne] at hfailed
  exact ⟨by simpa using hstatuses, hfailed⟩

theorem told_final {n x : Notification} (h : l.Told n) (hopen : n.isFinal = false)
    (hfin : x.isFinal = true) (hattempts : x.attempts = n.attempts)
    (hlock : x.processingLockUntil = none) (herror : x.status = .delivered → x.lastError = none)
    (hs : l'.statuses = l.statuses ++ [x.status])
    (hf : l'.failedEvents = l.failedEvents + if x.status = .dropped then 1 else 0) :
    l'.Told x := by
  obtain ⟨hstatuses, hfailed⟩ := h.of_open hopen
  have hne : x.status ≠ .sent := fun hx => by simp [Notification.isFinal, hx] at hfin
  refine ⟨?_, ?_, fun hx => absurd hx hne, herror, by rw [hf, hfailed, Nat.zero_add]⟩
  · rw [hs, hstatuses, hfin, if_pos rfl, hattempts]
  · simp [hlock, hne]

theorem failedEvents_asWritten (h : l'.events.map (·.asWritten) = l.events.map (·.asWritten)) :
    l'.failedEvents = l.failedEvents := countP_asWritten (fun _ => rfl) h

theorem failedEvents_snoc {e : OutboxEvent} (h : l'.events = l.events ++ [e]) :
    l'.failedEvents = l.failedEvents + if e.eventType = .failed then 1 else 0 := by
  rw [Lifecycle.failedEvents, h, List.countP_append, List.countP_singleton]
  simp [Lifecycle.failedEvents]

theorem statuses_snoc (row : NotificationStatusHistory) (h : l'.history = l.history ++ [row]) :
    l'.statuses = l.statuses ++ [row.status] := by
  rw [Lifecycle.statuses, h, List.map_append]
  rfl

/-- Every stored notification's story is told. -/
def Lifecycle.AllTold (l : Lifecycle) : Prop := ∀ n, l.row = some n → l.Told n

theorem told_step (hok : AppliesInTime s a) (hs : (s.lifecycle id).Sound)
    (ho : (s.lifecycle id).Owned) (hl : (s.lifecycle id).AllTold)
    (h : (s.lifecycle id).Step env.toSettings a l') : l'.AllTold := by
  intro x hx
  -- the row of the attempt that an apply ends
  have own {w : Nat} {t₁ t₂ : Time} {ids : EventIds} {f : Flight} {m : Notification}
      (hok : AppliesInTime s (.worker w (.apply t₁ t₂ ids)))
      (hf : (s.lifecycle id).flights w = some f) (hm : (s.lifecycle id).row = some m) :
      (s.lifecycle id).Told f.loaded ∧ f.loaded.status = .sent ∧ f.loaded.isFinal = false := by
    have hsent := (hs.flights w f hf).1
    exact ⟨hl _ (by rw [hm, row_of_applies hok hs ho hf hm]), hsent,
      isFinal_of_open (.inr hsent)⟩
  cases h with
  | quiet _ hrow hh he =>
    exact told_of_eq (hl x (hrow ▸ hx)) (by rw [Lifecycle.statuses, hh]; rfl)
      (failedEvents_asWritten he)
  | create =>
    cases hx
    constructor <;> simp [Lifecycle.statuses, Lifecycle.failedEvents, newNotification,
      createdEvent, Notification.isFinal]
  | call => exact told_of_eq (hl x hx) rfl rfl
  | @reserve w t₁ t₂ t₃ lockUntil ids n payload _ _ _ hrow hopen =>
    cases hx
    obtain ⟨hstatuses, hfailed⟩ := (hl n hrow).of_open hopen
    refine ⟨?_, by simp [Notification.reserved], fun _ => Nat.succ_pos _,
      by simp [Notification.reserved], hfailed⟩
    rw [statuses_snoc (l := s.lifecycle id) ⟨n.id, .sent, none, t₃⟩ rfl, hstatuses]
    simp [Notification.reserved, Notification.isFinal, List.replicate_succ']
  | defer =>
    refine told_of_eq (hl x hx) rfl ?_
    rw [failedEvents_snoc (l := s.lifecycle id) rfl]
    simp [deferredEvent, retryEvent]
  | refuse _ _ _ hrow hopen =>
    cases hx
    refine told_final (hl _ hrow) hopen isFinal_droppedBeforeProvider rfl rfl
      (by simp [Notification.droppedBeforeProvider]) (statuses_snoc ⟨_, .dropped, _, _⟩ rfl) ?_
    rw [failedEvents_snoc (l := s.lifecycle id) rfl]
    rfl
  | @deliver w t₁ t₂ ids f result m _ _ hf _ _ hrow =>
    cases hx
    obtain ⟨hstory, hsent, hopen⟩ := own hok hf hrow
    rw [row_of_applies hok hs ho hf hrow, writeBack_markedDelivered]
    exact told_final hstory hopen (by simp [Notification.isFinal, Notification.markedDelivered])
      rfl rfl (fun _ => rfl) (statuses_snoc ⟨_, .delivered, _, _⟩ rfl) rfl
  | @retry w t₁ t₂ lockUntil delay ids f result m _ _ hf _ _ _ hrow =>
    cases hx
    obtain ⟨hstory, hsent, hopen⟩ := own hok hf hrow
    rw [row_of_applies hok hs ho hf hrow, writeBack_awaitingRetry]
    obtain ⟨hstatuses, hfailed⟩ := hstory.of_open hopen
    refine ⟨hstatuses.trans ?_, ?_, fun _ => hstory.sent hsent, fun hd => ?_, ?_⟩
    · simp [Notification.awaitingRetry, Notification.withError, Notification.isFinal, hsent]
    · simp [Notification.awaitingRetry, Notification.withError, hsent]
    · cases hsent.symm.trans hd
    · rw [failedEvents_snoc (l := s.lifecycle id) rfl, hfailed]
      simp [retryEvent, Notification.awaitingRetry, Notification.withError, hsent]
  | @drop w t₁ t₂ ids f result m _ _ hf _ _ _ hrow =>
    cases hx
    obtain ⟨hstory, hsent, hopen⟩ := own hok hf hrow
    rw [row_of_applies hok hs ho hf hrow, writeBack_droppedByResult]
    refine told_final hstory hopen
      (by simp [Notification.isFinal, Notification.droppedByResult]) rfl rfl
      (by simp [Notification.droppedByResult]) (statuses_snoc ⟨_, .dropped, _, _⟩ rfl) ?_
    rw [failedEvents_snoc (l := s.lifecycle id) rfl]
    rfl

theorem told_reach (h : (machine env).Reach AppliesInTime s) (id : Uuid) :
    (s.lifecycle id).AllTold := by
  refine lifecycle_induct (fun now n hn => ?_) (fun t a l' ht hok hl hstep => ?_) h
  · cases hn
  · exact told_step hok (sound_reach ht id) (owned_reach ht id) hl hstep

/-! ## The delivering result -/

/-- In the run `as` from `s₀`, a delivering result with this provider message id is applied to
the open row of the notification. -/
def DeliveredBy (env : Deployment) (s₀ : State) (as : List Action) (id : Uuid)
    (providerMessageId : Option String) : Prop :=
  ∃ bs cs w t₁ t₂ ids u f result m,
    as = bs ++ .worker w (.apply t₁ t₂ ids) :: cs ∧ (machine env).Run AppliesInTime s₀ bs u ∧
      (u.workers w).flight? = some f ∧ f.loaded.id = id ∧ f.result = some result ∧
      (result.success && result.delivered) = true ∧
      result.providerMessageId = providerMessageId ∧
      u.store.notifications.get id = some m ∧ m.isFinal = false

theorem delivers_step (hok : AppliesInTime s a) (hs : (s.lifecycle id).Sound)
    (ho : (s.lifecycle id).Owned) (h : (s.lifecycle id).Step env.toSettings a l')
    {n : Notification} (hn : l'.row = some n) (hdone : n.status = .delivered) :
    (s.lifecycle id).row = some n ∨
      ∃ w t₁ t₂ ids f result m, a = .worker w (.apply t₁ t₂ ids) ∧
        (s.lifecycle id).flights w = some f ∧ f.result = some result ∧
        (result.success && result.delivered) = true ∧
        result.providerMessageId = n.providerMessageId ∧
        (s.lifecycle id).row = some m ∧ m.isFinal = false := by
  cases h with
  | quiet _ hrow => exact .inl (hrow ▸ hn)
  | call | defer => exact .inl hn
  | create =>
    cases hn
    cases hdone
  | reserve =>
    cases hn
    cases hdone
  | refuse =>
    cases hn
    cases hdone
  | @deliver w t₁ t₂ ids f result m _ _ hf hr hdel hrow =>
    cases hn
    have hm := row_of_applies hok hs ho hf hrow
    refine .inr ⟨w, t₁, t₂, ids, f, result, m, rfl, hf, hr, hdel, ?_, hrow, ?_⟩
    · rw [row_of_applies hok hs ho hf hrow, writeBack_markedDelivered]
      rfl
    · exact hm ▸ isFinal_of_open (.inr (hs.flights w f hf).1)
  | @retry w t₁ t₂ lockUntil delay ids f result m _ _ hf _ _ _ hrow =>
    cases hn
    rw [row_of_applies hok hs ho hf hrow, writeBack_awaitingRetry] at hdone
    cases (hs.flights w f hf).1.symm.trans hdone
  | @drop w t₁ t₂ ids f result m _ _ hf _ _ _ hrow =>
    cases hn
    rw [row_of_applies hok hs ho hf hrow, writeBack_droppedByResult] at hdone
    cases hdone

/-- A delivered row was written by a delivering result of the run. -/
theorem delivered_by {now : Time} {as : List Action} {n : Notification}
    (hrun : (machine env).Run AppliesInTime (.initial now) as s)
    (hn : s.store.notifications.get id = some n) (hdone : n.status = .delivered) :
    DeliveredBy env (.initial now) as id n.providerMessageId := by
  have hnew : ¬ (State.initial now).store.notifications.get id = some n := by
    simp [State.initial, Store.empty]
  obtain ⟨bs, a, cs, u, u', rfl, hr, hok, hstep, hu, hu'⟩ :=
    hrun.exists_step (P := fun s => s.store.notifications.get id = some n) hnew hn
  have hreach : (machine env).Reach AppliesInTime u := .run (.init ⟨now, rfl⟩) hr
  rcases delivers_step hok (sound_reach hreach id) (owned_reach hreach id)
    (lifecycle_step hreach hstep id) hu' hdone with h | h
  · exact absurd h hu
  · obtain ⟨w, t₁, t₂, ids, f, result, m, rfl, hf, hrest⟩ := h
    obtain ⟨hf, hid⟩ := flightOf_eq_some.1 hf
    exact ⟨bs, cs, w, t₁, t₂, ids, u, f, result, m, rfl, hr, hf, hid, hrest⟩

/-! ## The theorem -/

/-- **Row, history and outbox tell the same story** in every run whose results are applied
before the lock of their own reservation ends. -/
theorem same_story {now : Time} {as : List Action} {n : Notification}
    (hrun : (machine env).Run AppliesInTime (.initial now) as s)
    (hn : s.store.notifications.get id = some n) :
    (s.store.historyOf id).map (·.status) = .queued :: List.replicate n.attempts .sent ++
        (if n.isFinal then [n.status] else []) ∧
      ((s.store.historyOf id).map (·.status)).getLast? = some n.status ∧
      (n.processingLockUntil ≠ none ↔ n.status = .sent) ∧
      (n.status = .queued → n.attempts = 0) ∧
      (n.status = .delivered → n.lastError = none ∧
        DeliveredBy env (.initial now) as id n.providerMessageId) ∧
      (s.store.eventsOf id).countP (·.eventType = .failed) =
        if n.status = .dropped then 1 else 0 := by
  have hreach : (machine env).Reach AppliesInTime s := .run (.init ⟨now, rfl⟩) hrun
  have hs := sound_reach hreach id
  have hstory := told_reach hreach id n hn
  exact ⟨hstory.statuses, hstory.last hs hn, hstory.lock, hs.queued n hn,
    fun hdone => ⟨hstory.delivered hdone, delivered_by hrun hn hdone⟩, hstory.failed⟩

/-- A notification is delivered at the first attempt, in time. -/
theorem same_story_delivered : ∃ as s n,
    (machine Sample.env).Run AppliesInTime (.initial 0) as s ∧
      s.store.notifications.get 1 = some n ∧ n.status = .delivered ∧ n.attempts = 1 ∧
      ((s.store.historyOf 1).map (·.status) = .queued :: List.replicate n.attempts .sent ++
          (if n.isFinal then [n.status] else []) ∧
        ((s.store.historyOf 1).map (·.status)).getLast? = some n.status ∧
        (n.processingLockUntil ≠ none ↔ n.status = .sent) ∧
        (n.status = .queued → n.attempts = 0) ∧
        (n.status = .delivered → n.lastError = none ∧
          DeliveredBy Sample.env (.initial 0) as 1 n.providerMessageId) ∧
        (s.store.eventsOf 1).countP (·.eventType = .failed) =
          if n.status = .dropped then 1 else 0) := by
  let result : Action := .worker 0 (.apply (Sample.sec 5) (Sample.sec 5) ⟨4, 5⟩)
  let attempted : List Action := Sample.attempt ++
      [.worker 0 .send, .worker 0 (.answer Sample.deliveredResult)]
  obtain ⟨t, hrun, ht⟩ := Machine.Run.exists_of_exec (machine Sample.env) AppliesInTime
    (.initial 0) attempted
    (fun s => (s.workers 0).flight?.all (fun f => f.loaded.processingLockUntil.all (s.now < ·)) &&
      ((machine Sample.env).exec s [result]).any fun s' =>
        (s'.store.notifications.get 1).any fun n => n.status = .delivered && n.attempts = 1)
    (by simp [attempted, Sample.attempt, Sample.creation, Sample.publication, AppliesInTime])
    (by decide)
  rw [Bool.and_eq_true] at ht
  obtain ⟨s, hstep, hs⟩ := Machine.step_of_exec ht.2
  obtain ⟨n, hn, hdone⟩ := (Option.any_eq_true _ _).1 hs
  simp only [Bool.and_eq_true, decide_eq_true_eq] at hdone
  have hok : AppliesInTime t result := by
    intro f lockUntil hf hL
    simpa [hf, hL] using ht.1
  have hrun' := hrun.snoc hok hstep
  exact ⟨_, s, n, hrun', hn, hdone.1, hdone.2, same_story hrun' hn⟩

end NotificationSystem
