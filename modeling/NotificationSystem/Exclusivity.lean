import NotificationSystem.FinalStates

/-!
# Exclusive reservations

While an attempt is in flight, the row's lock keeps other workers away until the attempt's
window ends. The lock is one timestamp that every apply may overwrite: the retry of an older
attempt may move it back.

* `reservation_not_exclusive` — it then ends the window of an attempt still in flight.
* `reservation_exclusive` — no other reserve returns the notification within the window, in
  the runs whose retries do not move the lock back over one.
-/

namespace NotificationSystem

open Lib

variable {env : Deployment} {s s' : State} {a : Action} {id : Uuid} {cfg : Settings}
  {l l' : Lifecycle}

/-- The retry of an attempt leaves the row locked for as long as any other attempt's window
lasts. Nothing is asked of a retry that leaves the lock alone, or whose row is final. -/
def KeepsWindows (env : Deployment) (s : State) : Action → Prop
  | .worker w (.apply t₁ t₂ _) =>
    ∀ f result lockUntil n, (s.workers w).flight? = some f → f.result = some result →
      (result.success && result.delivered) = false →
      env.RetryLock f.loaded.attempts result t₁ lockUntil →
      s.store.notifications.get f.loaded.id = some n → n.isFinal = false →
      f.loaded.processingLockUntil ≠ some lockUntil →
      ∀ v g windowEnd, v ≠ w → (s.workers v).flight? = some g → g.loaded.id = f.loaded.id →
        g.loaded.processingLockUntil = some windowEnd → t₂ < windowEnd → windowEnd ≤ lockUntil
  | _ => True

/-- Within an attempt's window the row is final or locked until the window's end. -/
def Lifecycle.Windowed (l : Lifecycle) : Prop :=
  ∀ w f windowEnd n, l.flights w = some f → f.loaded.processingLockUntil = some windowEnd →
    l.row = some n → l.now < windowEnd →
      n.isFinal = true ∨ ∃ lockUntil, n.processingLockUntil = some lockUntil ∧ windowEnd ≤ lockUntil

/-- An open row that does not lock out a reserve at `t` has no window beyond `t`. -/
theorem window_ended (hs : l.Sound) (hc : l.Counted cfg) (hl : l.Windowed) {w : Nat} {f : Flight}
    {windowEnd t : Time} {n : Notification} (hf : l.flights w = some f)
    (hE : f.loaded.processingLockUntil = some windowEnd) (hrow : l.row = some n)
    (hopen : n.isFinal = false) (hlock : n.hasActiveProcessingLock t = false) (ht : l.now ≤ t) :
    windowEnd ≤ t := by
  by_contra hlt
  rcases hl w f windowEnd n hf hE hrow (lt_of_le_of_lt ht (not_le.1 hlt)) with
    hfin | ⟨lockUntil, hL, hle⟩
  · rw [hopen] at hfin
    cases hfin
  · have hended := lock_ended (sent_of_flight hs hc hf hrow hopen) hL hlock
    exact hlt (hle.trans hended)

theorem windowed_step (hok : KeepsWindows env s a) (hs : (s.lifecycle id).Sound)
    (hc : (s.lifecycle id).Counted env.toSettings) (hl : (s.lifecycle id).Windowed)
    (h : (s.lifecycle id).Step env.toSettings a l') : l'.Windowed := by
  intro w f windowEnd m hf hE hrow' hnow
  have hle := h.now_le
  -- what the invariant says of an attempt that was in flight before the step
  have before {f₀ : Flight} {n : Notification} (hf₀ : (s.lifecycle id).flights w = some f₀)
      (hsame : f.loaded = f₀.loaded) (hrow : (s.lifecycle id).row = some n) :=
    hl w f₀ windowEnd n hf₀ (hsame ▸ hE) hrow (lt_of_le_of_lt hle hnow)
  cases h with
  | quiet _ hrow _ _ _ hfl =>
    obtain ⟨f₀, hf₀, hsame, -⟩ := hfl w f hf
    exact before hf₀ hsame (hrow ▸ hrow')
  | create _ _ _ _ hnone => exact absurd hf (by simp [hnone])
  | call hw =>
    rcases of_update_some hf with ⟨rfl, rfl⟩ | ⟨-, hv⟩
    · exact before hw rfl hrow'
    · exact before hv rfl hrow'
  | @reserve v t₁ t₂ t₃ lockUntil ids n payload h₁ h₂ h₃ hrow hopen hlock =>
    rcases of_update_some hf with ⟨rfl, rfl⟩ | ⟨-, hv⟩
    · cases hrow'
      exact .inr ⟨windowEnd, hE, le_rfl⟩
    · have hended := window_ended hs hc hl hv hE hrow hopen hlock h₁
      exact absurd hnow (not_lt.2 (hended.trans (h₂.trans h₃)))
  | defer => exact before hf rfl hrow'
  | refuse =>
    cases hrow'
    exact .inl isFinal_droppedBeforeProvider
  | deliver _ _ hg =>
    cases hrow'
    exact .inl (isFinal_markedDelivered (hs.flights _ _ hg).1)
  | drop _ _ hg =>
    cases hrow'
    exact .inl (isFinal_droppedByResult (hs.flights _ _ hg).1)
  | @retry v t₁ t₂ lockUntil delay ids g result n _ _ hg hr hdel hretry hrow =>
    obtain ⟨hne, hf₀⟩ := of_update_none hf
    cases hrow'
    rw [isFinal_awaitingRetry]
    rcases before hf₀ rfl hrow with hfin | hlock
    · exact .inl hfin
    · cases hopen : n.isFinal with
      | true => exact .inl rfl
      | false =>
        right
        by_cases hchanged : g.loaded.processingLockUntil = some lockUntil
        · simpa [Notification.writeBack, Notification.awaitingRetry, writeColumn, hchanged]
            using hlock
        · refine ⟨lockUntil, writeColumn_of_ne fun h => hchanged h.symm, ?_⟩
          obtain ⟨hgs, rfl⟩ := flightOf_eq_some.1 hg
          obtain ⟨hfs, hid⟩ := flightOf_eq_some.1 hf₀
          exact hok g result lockUntil n hgs hr hdel (retryLock_of_retryUntil hretry) hrow hopen
            hchanged w f windowEnd hne hfs hid hE hnow

theorem windowed_reach (h : (machine env).Reach (KeepsWindows env) s) (id : Uuid) :
    (s.lifecycle id).Windowed := by
  refine lifecycle_induct (fun now => ?_) (fun t a l' ht hok hl hstep => ?_) h
  · intro w f windowEnd n hf
    cases hf
  · exact windowed_step hok (sound_reach ht id) (counted_reach ht id) hl hstep

/-- **A reservation is exclusive for its whole window**, in every run whose retries keep the
windows of the other attempts. The window of an attempt ends `processing_lock_ttl_seconds`
after the reading at which its reserve set the lock. -/
theorem reservation_exclusive (hs : (machine env).Reach (KeepsWindows env) s) :
    (∀ w t₁ t₂ t₃ ids s' f, step env s (.worker w (.reserve t₁ t₂ t₃ ids)) = some s' →
      (s'.workers w).flight? = some f →
      f.loaded.processingLockUntil = some (t₂ + env.processingLockTtlSeconds * 1000000)) ∧
    ∀ w f windowEnd v t₁ t₂ t₃ ids s' g, (s.workers w).flight? = some f →
      f.loaded.processingLockUntil = some windowEnd →
      step env s (.worker v (.reserve t₁ t₂ t₃ ids)) = some s' →
      (s'.workers v).flight? = some g → g.loaded.id = f.loaded.id → windowEnd ≤ t₁ := by
  constructor
  · intro w t₁ t₂ t₃ ids s' f hstep hf
    obtain ⟨n, lockUntil, -, -, -, -, hadd, hloaded, -⟩ := reserve_flight hstep hf
    rw [hloaded, ← addSeconds_eq_some hadd]
    rfl
  · intro w f windowEnd v t₁ t₂ t₃ ids s' g hf hE hstep hg hid
    obtain ⟨n, lockUntil, hn, hopen, hlock, -, -, -, hnow, -⟩ := reserve_flight hstep hg
    rw [hid] at hn
    exact window_ended (sound_reach hs f.loaded.id) (counted_reach hs f.loaded.id)
      (windowed_reach hs f.loaded.id) (flightOf_eq_some.2 ⟨hf, rfl⟩) hE hn hopen hlock hnow

/-- Worker 1 is returned the notification of worker 0 when its window of a minute has ended. -/
theorem reservation_exclusive_minute : ∃ s s' : State, ∃ f g : Flight,
    (s.workers 0).flight? = some f ∧ (s'.workers 1).flight? = some g ∧
      g.loaded.id = f.loaded.id ∧
      f.loaded.processingLockUntil = some (Sample.sec 60) ∧ Sample.sec 60 ≤ Sample.sec 60 := by
  let again : Action :=
    .worker 1 (.reserve (Sample.sec 60) (Sample.sec 60) (Sample.sec 60) ⟨4, 5⟩)
  let locked (f : Flight) : Bool :=
    f.loaded.processingLockUntil = some (Sample.sec 60) && f.loaded.id = 1
  obtain ⟨s, hrun, hs⟩ := Machine.Run.exists_of_exec (machine Sample.env)
    (KeepsWindows Sample.env) (.initial 0)
    (Sample.attempt ++
      [.worker 0 (.disconnect false), .worker 1 (.get .high Sample.message)])
    (fun s => (s.workers 0).flight?.any locked && ((machine Sample.env).exec s [again]).any
      fun s' => (s'.workers 1).flight?.any (·.loaded.id = 1))
    (by simp [Sample.attempt, Sample.creation, Sample.publication, KeepsWindows]) (by decide)
  rw [Bool.and_eq_true] at hs
  obtain ⟨s', hstep, hs'⟩ := Machine.step_of_exec hs.2
  obtain ⟨f, hf, hlocked⟩ := (Option.any_eq_true _ _).1 hs.1
  obtain ⟨g, hg, hid⟩ := (Option.any_eq_true _ _).1 hs'
  simp only [locked, Bool.and_eq_true, decide_eq_true_eq] at hlocked hid
  have hsame : g.loaded.id = f.loaded.id := hid.trans hlocked.2.symm
  exact ⟨s, s', f, g, hf, hg, hsame, hlocked.1,
    (reservation_exclusive (.run (.init ⟨0, rfl⟩) hrun)).2 0 f _ 1 _ _ _ _ s' g hf hlocked.1
      hstep hg hsame⟩

/-- **The retry of an older attempt ends a newer one's window**: worker 1 has reserved until
120 s when worker 0 sets the lock to 71 s, at which worker 2 reserves. -/
theorem reservation_not_exclusive : ¬ ∀ (env : Deployment) (s : State),
    (machine env).Reach Machine.Always s → ∀ w f windowEnd v t₁ t₂ t₃ ids s' g,
      (s.workers w).flight? = some f → f.loaded.processingLockUntil = some windowEnd →
      step env s (.worker v (.reserve t₁ t₂ t₃ ids)) = some s' →
      (s'.workers v).flight? = some g → g.loaded.id = f.loaded.id → windowEnd ≤ t₁ := by
  intro h
  let third : Action :=
    .worker 2 (.reserve (Sample.sec 71) (Sample.sec 71) (Sample.sec 71) ⟨6, 7⟩)
  let locked (f : Flight) : Bool :=
    f.loaded.processingLockUntil = some (Sample.sec 120) && f.loaded.id = 1
  obtain ⟨s, hrun, hs⟩ := Machine.Run.exists_of_exec_always (machine Sample.env) (.initial 0)
    (Sample.attempt ++
      [.worker 0 .send, .worker 0 (.disconnect false), .worker 1 (.get .high Sample.message),
        .worker 1 (.reserve (Sample.sec 60) (Sample.sec 60) (Sample.sec 60) ⟨4, 5⟩),
        .worker 1 .send, .worker 1 (.disconnect false),
        .worker 0 (.answer Sample.temporaryError),
        .worker 0 (.apply (Sample.sec 61) (Sample.sec 61) ⟨4, 5⟩),
        .worker 2 (.get .high Sample.message)])
    (fun s => (s.workers 1).flight?.any locked && ((machine Sample.env).exec s [third]).any
      fun s' => (s'.workers 2).flight?.any (·.loaded.id = 1)) (by decide)
  rw [Bool.and_eq_true] at hs
  obtain ⟨s', hstep, hs'⟩ := Machine.step_of_exec hs.2
  obtain ⟨f, hf, hlocked⟩ := (Option.any_eq_true _ _).1 hs.1
  obtain ⟨g, hg, hid⟩ := (Option.any_eq_true _ _).1 hs'
  simp only [locked, Bool.and_eq_true, decide_eq_true_eq] at hlocked hid
  have hle := h Sample.env s (.run (.init ⟨0, rfl⟩) hrun) 1 f _ 2 _ _ _ _ s' g hf hlocked.1
    hstep hg (hid.trans hlocked.2.symm)
  exact absurd hle (by decide)

end NotificationSystem
