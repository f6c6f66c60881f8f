import NotificationSystem.Timely

/-!
# The retry schedule

When providers keep within the lock, attempts follow one another: each is applied before the
next one is reserved, and a temporary failure puts the next one off by the configured delay.

* `OnSchedule` — what a state says of the calls made for a notification from there on.
* `inOrder_step` — the attempt that is called is the one with the call's number.
* `retry_schedule` — every timely run is on schedule.
-/

namespace NotificationSystem

open Lib

variable {env : Deployment} {s s' u : State} {a : Action} {id : Uuid} {w : Nat} {f : Flight}
  {result : ProviderResult} {t₁ t₂ : Time} {ids : EventIds} {as : List Action}

/-- The schedule of a notification's calls from the state `s` on. Attempt `k` is the one with
attempt count `k`. -/
structure OnSchedule (env : Deployment) (s : State) (id : Uuid) : Prop where
  /-- Calls do not overlap. -/
  single : ∀ v w f g, (s.workers v).flight? = some f → (s.workers w).flight? = some g →
    f.loaded.id = id → g.loaded.id = id → f.called = true → g.called = true → v = w
  /-- A temporary failure of attempt `k` below `max_retries` adds one retry event, due when the
  row's new lock ends, and no reserve returns the notification before. -/
  backoff : ∀ w t₁ t₂ ids s' f result,
    step env s (.worker w (.apply t₁ t₂ ids)) = some s' →
    CallsTimely env s (.worker w (.apply t₁ t₂ ids)) →
    (s.workers w).flight? = some f → f.loaded.id = id → f.result = some result →
    (result.success && result.delivered) = false → result.errorType = some .temporary →
    (f.loaded.attempts : Int) < env.maxRetries →
    ∃ delay e n, env.backoffEntry f.loaded.attempts = some delay ∧
      s'.store.eventsOf id = s.store.eventsOf id ++ [e] ∧ e.eventType = .retryScheduled ∧
      e.payload.retryDelaySeconds = some delay ∧ s'.store.notifications.get id = some n ∧
      e.availableAt = n.processingLockUntil ∧
      n.processingLockUntil = some (t₁ + delay * 1000000) ∧
      ∀ as u u' v r₁ r₂ r₃ ids' g, (machine env).Run (CallsTimely env) s' as u →
        step env u (.worker v (.reserve r₁ r₂ r₃ ids')) = some u' →
        (u'.workers v).flight? = some g → g.loaded.id = id → t₁ + delay * 1000000 ≤ r₁
  /-- After a delivery or a permanent error there is no further call. -/
  ends : ∀ w f result as u, (s.workers w).flight? = some f → f.loaded.id = id →
    f.result = some result →
    (result.success && result.delivered) = true ∨ result.errorType ≠ some .temporary →
    (machine env).Run (CallsTimely env) s as u → u.callsOf id = s.callsOf id
  /-- A temporary failure of attempt `max_retries` drops the notification, with one failed
  event. -/
  drops : ∀ w t₁ t₂ ids s' f result,
    step env s (.worker w (.apply t₁ t₂ ids)) = some s' →
    CallsTimely env s (.worker w (.apply t₁ t₂ ids)) →
    (s.workers w).flight? = some f → f.loaded.id = id → f.result = some result →
    (result.success && result.delivered) = false → result.errorType = some .temporary →
    env.maxRetries ≤ (f.loaded.attempts : Int) →
    ∃ n, s'.store.notifications.get id = some n ∧ n.status = .dropped ∧
      (s'.store.eventsOf id).countP (·.eventType = .failed) = 1

/-! ## The step that applies a result -/

/-- What holds when a timely result is applied: the transaction commits, its attempt holds the
row, and only stale attempts are left. -/
theorem apply_timely (h : (machine env).Reach (CallsTimely env) s)
    (hne : env.retryBackoffList ≠ []) (hok : CallsTimely env s (.worker w (.apply t₁ t₂ ids)))
    (hstep : step env s (.worker w (.apply t₁ t₂ ids)) = some s')
    (hf : (s.lifecycle id).flights w = some f) (hr : f.result = some result) :
    f.loaded.status = .sent ∧ s.store.notifications.get f.loaded.id = some f.loaded ∧
      (s'.lifecycle id).Idle ∧
      ∃ d st, Applied env.toSettings s.store d.message.payload.notificationId d.message.payload
        f.loaded result t₁ t₂ ids st ∧ s' = afterApply s w d t₂ (.ok st) := by
  obtain ⟨hflight, hid⟩ := flightOf_eq_some.1 hf
  obtain ⟨hsent, L, hL⟩ := (sound_reach h id).flights w f hf
  have hnow := inTime_reach h w f L hflight (called_of_result hflight hr) hL
  have hrow : s.store.notifications.get f.loaded.id = some f.loaded :=
    hid.symm ▸ row_of_timely h hf hL hnow
  obtain ⟨d, st, -, h₁, h₂, happ, rfl⟩ := apply_commits (referenced_reach h) hne hstep hflight hr
    (hok.2 f result hflight hr).1 (hok.2 f result hflight hr).2
  refine ⟨hsent, hrow, fun v g hg => ?_, d, st, happ, rfl⟩
  have hg' := flightOf_eq_some.1 hg
  rw [afterApply_flight] at hg'
  obtain ⟨hg', hgid⟩ := hg'
  split at hg'
  · cases hg'
  · next hv =>
    exact (others_stale h hf hL hnow (flightOf_eq_some.2 ⟨hg', hgid⟩) hv).mono (h₁.trans h₂) rfl rfl

theorem retry_applied (h : (machine env).Reach (CallsTimely env) s)
    (hne : env.retryBackoffList ≠ []) (hok : CallsTimely env s (.worker w (.apply t₁ t₂ ids)))
    (hstep : step env s (.worker w (.apply t₁ t₂ ids)) = some s')
    (hf : (s.lifecycle id).flights w = some f) (hr : f.result = some result)
    (hdel : (result.success && result.delivered) = false)
    (htemp : result.errorType = some .temporary)
    (hlt : (f.loaded.attempts : Int) < env.maxRetries) :
    ∃ delay e n, env.backoffEntry f.loaded.attempts = some delay ∧
      s'.store.eventsOf id = s.store.eventsOf id ++ [e] ∧ e.eventType = .retryScheduled ∧
      e.payload.retryDelaySeconds = some delay ∧ s'.store.notifications.get id = some n ∧
      n.status = .sent ∧ e.availableAt = n.processingLockUntil ∧
      n.processingLockUntil = some (t₁ + delay * 1000000) := by
  obtain ⟨hsent, hrow, -, d, st, happ, rfl⟩ := apply_timely h hne hok hstep hf hr
  obtain ⟨delay, hentry, hdecide⟩ := decide_of_lt hne ((counted_reach h id).flights w f hf).1 hlt
  obtain ⟨-, rfl⟩ := flightOf_eq_some.1 hf
  cases happ with
  | guarded hfin => simp [Notification.isFinal, hsent] at hfin
  | delivered _ hdel' => cases hdel.symm.trans hdel'
  | dropped _ _ hretry =>
    simp only [retryUntil, htemp, hdecide] at hretry
    split at hretry
    · next hnot => exact absurd rfl hnot
    · split at hretry <;> cases hretry
  | @retried delay' lockUntil outbox _ _ hretry hins =>
    obtain ⟨-, hdecide', hadd⟩ := retryUntil_eq_some hretry
    cases hdecide.symm.trans hdecide'
    obtain rfl := addSeconds_eq_some hadd
    refine ⟨delay, _, _, hentry, filter_insert?_self hins rfl, rfl, rfl,
      get_saveNotification_self _ hrow, ?_⟩
    rw [writeBack_awaitingRetry]
    exact ⟨hsent, rfl, rfl⟩

theorem drop_applied (h : (machine env).Reach (CallsTimely env) s)
    (hne : env.retryBackoffList ≠ []) (hok : CallsTimely env s (.worker w (.apply t₁ t₂ ids)))
    (hstep : step env s (.worker w (.apply t₁ t₂ ids)) = some s')
    (hf : (s.lifecycle id).flights w = some f) (hr : f.result = some result)
    (hdel : (result.success && result.delivered) = false)
    (hmax : env.maxRetries ≤ (f.loaded.attempts : Int)) :
    ∃ n, s'.store.notifications.get id = some n ∧ n.status = .dropped := by
  obtain ⟨hsent, hrow, -, d, st, happ, rfl⟩ := apply_timely h hne hok hstep hf hr
  obtain ⟨-, rfl⟩ := flightOf_eq_some.1 hf
  cases happ with
  | guarded hfin => simp [Notification.isFinal, hsent] at hfin
  | delivered _ hdel' => cases hdel.symm.trans hdel'
  | retried _ _ hretry =>
    obtain ⟨-, hdecide, -⟩ := retryUntil_eq_some hretry
    simp [RetryPolicy.decide, Settings.retryPolicy, hmax] at hdecide
  | dropped =>
    refine ⟨_, get_saveNotification_self _ hrow, ?_⟩
    rw [writeBack_droppedByResult]
    rfl

theorem final_applied (h : (machine env).Reach (CallsTimely env) s)
    (hne : env.retryBackoffList ≠ []) (hok : CallsTimely env s (.worker w (.apply t₁ t₂ ids)))
    (hstep : step env s (.worker w (.apply t₁ t₂ ids)) = some s')
    (hf : (s.lifecycle id).flights w = some f) (hr : f.result = some result)
    (hend : (result.success && result.delivered) = true ∨ result.errorType ≠ some .temporary) :
    ∃ n, s'.store.notifications.get id = some n ∧ n.isFinal = true := by
  obtain ⟨hsent, hrow, -, d, st, happ, rfl⟩ := apply_timely h hne hok hstep hf hr
  obtain ⟨-, rfl⟩ := flightOf_eq_some.1 hf
  cases happ with
  | guarded hfin => simp [Notification.isFinal, hsent] at hfin
  | delivered => exact ⟨_, get_saveNotification_self _ hrow, isFinal_markedDelivered hsent⟩
  | retried _ hdel hretry =>
    obtain ⟨htemp, -⟩ := retryUntil_eq_some hretry
    rcases hend with hdel' | hperm
    · cases hdel.symm.trans hdel'
    · exact absurd htemp hperm
  | dropped => exact ⟨_, get_saveNotification_self _ hrow, isFinal_droppedByResult hsent⟩

/-! ## What follows it -/

theorem waits_run {n : Notification} {lockUntil : Time}
    (h : (machine env).Reach (CallsTimely env) s) (hn : (s.lifecycle id).row = some n)
    (hsent : n.status = .sent) (hL : n.processingLockUntil = some lockUntil)
    (hidle : (s.lifecycle id).Idle) (hrun : (machine env).Run (CallsTimely env) s as u) :
    lockUntil ≤ u.now ∨ (u.lifecycle id).row = some n ∧ (u.lifecycle id).Idle := by
  refine Machine.Run.induct
    (I := fun u => lockUntil ≤ u.now ∨ (u.lifecycle id).row = some n ∧ (u.lifecycle id).Idle) h
    (.inr ⟨hn, hidle⟩) (fun t a t' ht hI hok hstep => ?_) hrun
  rcases hI with hle | ⟨hrow, hidle⟩
  · exact .inl (hle.trans (lifecycle_step ht hstep id).now_le)
  · rcases idle_step ht hok hstep hrow hidle with ⟨hrow, -, hidle⟩ | ⟨-, hended⟩
    · exact .inr ⟨hrow, hidle⟩
    · exact .inl (hended lockUntil hsent hL)

theorem reserve_waits {n : Notification} {lockUntil t₁' t₂' t₃' : Time} {v : Nat}
    {ids' : EventIds} {u' : State} {g : Flight}
    (h : (machine env).Reach (CallsTimely env) s) (hn : (s.lifecycle id).row = some n)
    (hsent : n.status = .sent) (hL : n.processingLockUntil = some lockUntil)
    (hidle : (s.lifecycle id).Idle) (hrun : (machine env).Run (CallsTimely env) s as u)
    (hstep : step env u (.worker v (.reserve t₁' t₂' t₃' ids')) = some u')
    (hg : (u'.workers v).flight? = some g) (hid : g.loaded.id = id) : lockUntil ≤ t₁' := by
  subst hid
  obtain ⟨m, L, hm, hopen, hlock, -, -, -, hnow, -⟩ := reserve_flight hstep hg
  rcases waits_run h hn hsent hL hidle hrun with hle | ⟨hrow, -⟩
  · exact hle.trans hnow
  · obtain rfl := Option.some.inj (hrow.symm.trans hm)
    exact lock_ended hsent hL hlock

/-- A call for a notification begins only where no other one is in flight. -/
theorem calls_of_called {g : Flight} (h : (machine env).Reach (CallsTimely env) s)
    (hok : CallsTimely env s a) (hstep : step env s a = some s')
    (hf : (s.lifecycle id).flights w = some f) (hfc : f.called = true)
    (hg : (s'.lifecycle id).flights w = some g) (hgc : g.called = true) :
    (s'.lifecycle id).calls = (s.lifecycle id).calls := by
  have h' := h.step hok hstep
  have hlife := lifecycle_step h hstep id
  generalize hl' : s'.lifecycle id = l' at hlife hg ⊢
  cases hlife with
  | quiet _ _ _ _ hc => exact hc
  | create | reserve | defer | refuse | deliver | retry | drop => rfl
  | @call v k hk hkc =>
    have hk' : (s'.lifecycle id).flights v = some { k with called := true } := by
      rw [hl']
      simp
    obtain rfl := calls_single h' hk' (hl' ▸ hg) rfl hgc
    obtain rfl := Option.some.inj (hk.symm.trans hf)
    cases hkc.symm.trans hfc

theorem ended_run (h : (machine env).Reach (CallsTimely env) s) (hne : env.retryBackoffList ≠ [])
    (hf : (s.lifecycle id).flights w = some f) (hr : f.result = some result)
    (hend : (result.success && result.delivered) = true ∨ result.errorType ≠ some .temporary)
    (hrun : (machine env).Run (CallsTimely env) s as u) :
    (u.lifecycle id).calls = (s.lifecycle id).calls := by
  -- the result waits to be applied, or it has been
  let I (u : State) : Prop := (u.lifecycle id).calls = (s.lifecycle id).calls ∧
    ((∃ g, (u.lifecycle id).flights w = some g ∧ g.result = some result) ∨
      ∃ n, (u.lifecycle id).row = some n ∧ n.isFinal = true ∧ (u.lifecycle id).Idle)
  refine (Machine.Run.induct (I := I) h ⟨rfl, .inl ⟨f, hf, hr⟩⟩ ?_ hrun).1
  rintro t a t' ht ⟨hcalls, ⟨g, hg, hgr⟩ | ⟨n, hrow, hfin, hidle⟩⟩ hok hstep
  · obtain ⟨hflight, hid⟩ := flightOf_eq_some.1 hg
    have hcalled := called_of_result hflight hgr
    rcases flight_stays hstep hflight with
      ⟨k, hk, hloaded, hkc, hkr⟩ | ⟨dead, rfl⟩ | ⟨t₁, t₂, ids, result', rfl, hr'⟩
    · have hk' : (t'.lifecycle id).flights w = some k :=
        flightOf_eq_some.2 ⟨hk, by rw [hloaded, hid]⟩
      exact ⟨(calls_of_called ht hok hstep hg hcalled hk' (hkc hcalled)).trans hcalls,
        .inl ⟨k, hk', hkr result hgr⟩⟩
    · cases hcalled.symm.trans (hok.2 g hflight)
    · obtain ⟨n, hn, hfin⟩ := final_applied ht hne hok hstep hg hgr hend
      obtain ⟨-, -, hidle, d, st, -, rfl⟩ := apply_timely ht hne hok hstep hg hgr
      exact ⟨hcalls, .inr ⟨n, hn, hfin, hidle⟩⟩
  · rcases idle_step ht hok hstep hrow hidle with ⟨hrow, hc, hidle⟩ | ⟨hopen, -⟩
    · exact ⟨hc.trans hcalls, .inr ⟨n, hrow, hfin, hidle⟩⟩
    · cases hfin.symm.trans hopen

/-! ## The numbers of the calls -/

/-- The calls are for the attempts 1, 2, … in that order; the next one is for the attempt in
flight. -/
structure Lifecycle.InOrder (l : Lifecycle) : Prop where
  calls : l.calls.map (·.attempt) = List.range' 1 l.calls.length
  idle : (∀ w, l.flights w = none) → l.calls.length = l.attempts
  flights : ∀ w f, l.flights w = some f →
    f.loaded.attempts = if f.called then l.calls.length else l.calls.length + 1

/-- An attempt in flight holds the row when every attempt is timely, so there is one at most. -/
theorem row_of_attempt (h : (machine env).Reach (AttemptsTimely env) s)
    (hf : (s.lifecycle id).flights w = some f) : (s.lifecycle id).row = some f.loaded := by
  obtain ⟨-, L, hL⟩ := (sound_reach h id).flights w f hf
  exact row_of_timely (callsTimely_of_attempts h) hf hL
    (inTime_reach h w f L (flightOf_eq_some.1 hf).1 rfl hL)

theorem attempts_single {v : Nat} {g : Flight} (h : (machine env).Reach (AttemptsTimely env) s)
    (hf : (s.lifecycle id).flights v = some f) (hg : (s.lifecycle id).flights w = some g) :
    v = w := by
  have hsame := (row_of_attempt h hf).symm.trans (row_of_attempt h hg)
  exact owner_unique (counted_reach h id) hf hg (Option.some.inj hsame)

theorem attempts_of_flight (h : (machine env).Reach (AttemptsTimely env) s)
    (hf : (s.lifecycle id).flights w = some f) :
    (s.lifecycle id).attempts = f.loaded.attempts := by
  rw [Lifecycle.attempts, row_of_attempt h hf]
  rfl

theorem inOrder_initial (now : Time) : (Lifecycle.initial now).InOrder where
  calls := rfl
  idle _ := rfl
  flights _ _ h := by cases h

theorem calls_of_answered (h : (machine env).Reach (AttemptsTimely env) s)
    (hl : (s.lifecycle id).InOrder) (hf : (s.lifecycle id).flights w = some f)
    (hr : f.result = some result) : (s.lifecycle id).calls.length = (s.lifecycle id).attempts := by
  have hcalled := called_of_result (flightOf_eq_some.1 hf).1 hr
  rw [attempts_of_flight h hf, hl.flights w f hf, if_pos hcalled]

theorem inOrder_ended {l' : Lifecycle} (h : (machine env).Reach (AttemptsTimely env) s)
    (hl : (s.lifecycle id).InOrder) (hf : (s.lifecycle id).flights w = some f)
    (hr : f.result = some result) (hcalls : l'.calls = (s.lifecycle id).calls)
    (hattempts : l'.attempts = (s.lifecycle id).attempts)
    (hflights : l'.flights = Function.update (s.lifecycle id).flights w none) : l'.InOrder where
  calls := by
    rw [hcalls]
    exact hl.calls
  idle _ := by
    rw [hcalls, hattempts]
    exact calls_of_answered h hl hf hr
  flights v g hg := by
    obtain ⟨hne, hv⟩ := of_update_none (hflights ▸ hg)
    exact absurd (attempts_single h hv hf) hne

theorem inOrder_step (h : (machine env).Reach (AttemptsTimely env) s)
    (hok : AttemptsTimely env s a) (hstep : step env s a = some s')
    (hl : (s.lifecycle id).InOrder) : (s'.lifecycle id).InOrder := by
  have h' := h.step hok hstep
  have hlife := lifecycle_step h hstep id
  have hcounts := hlife.counts
  generalize hl' : s'.lifecycle id = l' at hlife hcounts ⊢
  have kept (hrows : l'.sentRows = (s.lifecycle id).sentRows) :
      l'.attempts = (s.lifecycle id).attempts := by
    rcases hcounts with ⟨hsame, -⟩ | ⟨-, hmore, -⟩
    · exact hsame
    · omega
  cases hlife with
  | quiet _ hrow _ _ hc hfl =>
    refine ⟨hc ▸ hl.calls, fun hnone => ?_, fun v g hg => ?_⟩
    · rw [hc, Lifecycle.attempts, hrow]
      by_cases hany : ∃ w f, (s.lifecycle id).flights w = some f
      · obtain ⟨w, f, hf⟩ := hany
        obtain ⟨hflight, hid⟩ := flightOf_eq_some.1 hf
        rcases flight_stays hstep hflight with
          ⟨g, hg, hloaded, -⟩ | ⟨dead, rfl⟩ | ⟨t₁, t₂, ids, result, rfl, hr⟩
        · have hg' : l'.flights w = some g := by
            rw [← hl']
            exact flightOf_eq_some.2 ⟨hg, by rw [hloaded, hid]⟩
          cases (hnone w).symm.trans hg'
        · cases hok.2 f hflight
        · exact calls_of_answered h hl hf hr
      · refine hl.idle fun w => Option.eq_none_iff_forall_ne_some.2 fun f hf => ?_
        exact hany ⟨w, f, hf⟩
    · obtain ⟨g₀, hg₀, hsame, -, hcalled⟩ := hfl v g hg
      rw [hc, hsame, hcalled]
      exact hl.flights v g₀ hg₀
  | create _ _ _ hc hnone =>
    refine ⟨hl.calls, fun _ => ?_, fun v g hg => absurd hg (by simp [hnone])⟩
    simp [Lifecycle.attempts, hc, newNotification]
  | @call w f hw hcalled _ =>
    have hnumber : f.loaded.attempts = (s.lifecycle id).calls.length + 1 := by
      simpa [hcalled] using hl.flights w f hw
    refine ⟨?_, fun hnone => ?_, fun v g hg => ?_⟩
    · rw [List.map_append, hl.calls, List.length_append, List.length_singleton,
        List.range'_concat]
      simp [providerCall, hnumber, Nat.add_comm]
    · simpa using hnone w
    · rcases of_update_some hg with ⟨-, rfl⟩ | ⟨hne, hv⟩
      · simpa using hnumber
      · exact absurd (attempts_single h hv hw) hne
  | @reserve w t₁ t₂ t₃ lockUntil ids n payload _ _ _ hrow _ _ _ _ hfree =>
    have hw : (s'.lifecycle id).flights w =
        some { loaded := n.reserved lockUntil, payload } := by
      rw [hl']
      simp
    have hnone : ∀ v, (s.lifecycle id).flights v = none := by
      intro v
      by_cases hv : v = w
      · exact hv ▸ hfree
      · refine Option.eq_none_iff_forall_ne_some.2 fun g hg => hv ?_
        refine attempts_single h' (f := g) ?_ hw
        rw [hl']
        simpa [hv] using hg
    have hidle := hl.idle hnone
    refine ⟨hl.calls, fun hnone' => ?_, fun v g hg => ?_⟩
    · simpa using hnone' w
    · rcases of_update_some hg with ⟨-, rfl⟩ | ⟨-, hv⟩
      · simpa [Lifecycle.attempts, hrow, Notification.reserved] using hidle.symm
      · cases (hnone v).symm.trans hv
  | defer => exact ⟨hl.calls, hl.idle, hl.flights⟩
  | refuse =>
    exact ⟨hl.calls, fun hnone =>
      (hl.idle hnone).trans (kept (by simp [Lifecycle.sentRows])).symm, hl.flights⟩
  | deliver _ _ hf hr =>
    exact inOrder_ended h hl hf hr rfl (kept (by simp [Lifecycle.sentRows])) rfl
  | retry _ _ hf hr => exact inOrder_ended h hl hf hr rfl (kept rfl) rfl
  | drop _ _ hf hr =>
    exact inOrder_ended h hl hf hr rfl (kept (by simp [Lifecycle.sentRows])) rfl

theorem inOrder_reach (h : (machine env).Reach (AttemptsTimely env) s) (id : Uuid) :
    (s.lifecycle id).InOrder := by
  refine Machine.Reach.induct (I := fun s => (s.lifecycle id).InOrder) ?_ ?_ h
  · rintro _ ⟨now, rfl⟩
    exact inOrder_initial now
  · exact fun t a t' ht hI hok hstep => inOrder_step ht hok hstep hI

/-! ## The theorem -/

theorem onSchedule_reach (hne : env.retryBackoffList ≠ [])
    (h : (machine env).Reach (CallsTimely env) s) (id : Uuid) : OnSchedule env s id where
  single v w f g hf hg hfid hgid hfc hgc :=
    calls_single h (flightOf_eq_some.2 ⟨hf, hfid⟩) (flightOf_eq_some.2 ⟨hg, hgid⟩) hfc hgc
  backoff w t₁ t₂ ids s' f result hstep hok hf hid hr hdel htemp hlt := by
    have hflight := flightOf_eq_some.2 ⟨hf, hid⟩
    obtain ⟨delay, e, n, hentry, hevents, htype, hdelay, hn, hsent, hdue, hL⟩ :=
      retry_applied h hne hok hstep hflight hr hdel htemp hlt
    obtain ⟨-, -, hidle, -⟩ := apply_timely h hne hok hstep hflight hr
    have h' : (machine env).Reach (CallsTimely env) s' := h.step hok hstep
    refine ⟨delay, e, n, hentry, hevents, htype, hdelay, hn, hdue, hL, ?_⟩
    intro as u u' v r₁ r₂ r₃ ids' g hrun hres hg hgid
    exact reserve_waits h' hn hsent hL hidle hrun hres hg hgid
  ends w f result as u hf hid hr hend hrun :=
    ended_run h hne (flightOf_eq_some.2 ⟨hf, hid⟩) hr hend hrun
  drops w t₁ t₂ ids s' f result hstep hok hf hid hr hdel htemp hmax := by
    obtain ⟨n, hn, hdropped⟩ :=
      drop_applied h hne hok hstep (flightOf_eq_some.2 ⟨hf, hid⟩) hr hdel hmax
    have h' : (machine env).Reach (CallsTimely env) s' := h.step hok hstep
    have hfailed := (told_reach (applies_in_time h') id n hn).failed
    rw [if_pos hdropped] at hfailed
    exact ⟨n, hn, hdropped, hfailed⟩

/-- **The retry schedule is the configured one** when each provider call ends, and its result
is applied, before the lock of its reservation ends. When no attempt is held up or lost before
its call either, the call that is made `k`-th is the one of attempt `k`. -/
theorem retry_schedule (hne : env.retryBackoffList ≠ [])
    (h : (machine env).Reach (CallsTimely env) s) (id : Uuid) :
    OnSchedule env s id ∧
      ((machine env).Reach (AttemptsTimely env) s →
        (s.callsOf id).map (·.attempt) = List.range' 1 (s.callsOf id).length ∧
          ∀ w f, (s.workers w).flight? = some f → f.loaded.id = id → f.called = true →
            f.loaded.attempts = (s.callsOf id).length) := by
  refine ⟨onSchedule_reach hne h id, fun hall => ?_⟩
  have horder := inOrder_reach hall id
  refine ⟨horder.calls, fun w f hf hid hcalled => ?_⟩
  exact (horder.flights w f (flightOf_eq_some.2 ⟨hf, hid⟩)).trans (if_pos hcalled)

/-- The first call has failed temporarily within the lock. -/
theorem retry_schedule_first : ∃ s : State, ∃ f, (s.workers 0).flight? = some f ∧
    f.result = some Sample.temporaryError ∧ f.loaded.id = 1 ∧ f.loaded.attempts = 1 ∧
      OnSchedule Sample.env s 1 ∧
      (s.callsOf 1).map (·.attempt) = List.range' 1 (s.callsOf 1).length ∧
      ∀ w f, (s.workers w).flight? = some f → f.loaded.id = 1 → f.called = true →
        f.loaded.attempts = (s.callsOf 1).length := by
  let attempted : List Action := Sample.attempt ++
      [.worker 0 .send, .tick (Sample.sec 5), .worker 0 (.answer Sample.temporaryError)]
  obtain ⟨s, hrun, hs⟩ := Machine.Run.exists_of_exec_always (machine Sample.env) (.initial 0)
    attempted
    (fun s => s.now = Sample.sec 5 && (s.workers 0).flight?.any fun f =>
      f.result = some Sample.temporaryError && f.loaded.id = 1 && f.loaded.attempts = 1)
    (by decide)
  simp only [Bool.and_eq_true, Option.any_eq_true, decide_eq_true_eq] at hs
  obtain ⟨hnow, f, hf, ⟨hr, hid⟩, hattempts⟩ := hs
  have hshort : s.now < 0 + Sample.env.processingLockTtlSeconds * 1000000 := by
    rw [hnow]
    decide
  have hnone : ∀ a ∈ attempted, a.endsAttempt = false := by
    simp [attempted, Sample.attempt, Sample.creation, Sample.publication, Action.endsAttempt]
  have hall := retry_schedule (by decide)
    (.run (.init ⟨0, rfl⟩) (timely_of_short hrun hshort hnone)) 1
  exact ⟨s, f, hf, hr, hid, hattempts, hall.1,
    hall.2 (.run (.init ⟨0, rfl⟩) (timely_of_short hrun hshort hnone))⟩

end NotificationSystem
