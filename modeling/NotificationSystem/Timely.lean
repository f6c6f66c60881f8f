import NotificationSystem.Story

/-!
# Providers that keep within the lock

The runs in which every provider call ends, and its result is applied, before the lock of its
reservation ends.

* `Timely` — the condition, for the attempts that a predicate picks.
* `flight_stays` — an attempt leaves a worker by its apply or by a crash only.
* `apply_commits` — and its apply commits.
* `Idle`, `idle_step` — while every attempt left over is stale, the row changes only by a
  reserve that finds it open and unlocked.
-/

namespace NotificationSystem

open Lib

variable {env : Deployment} {s s' : State} {a : Action} {id : Uuid} {w : Nat} {f : Flight}
  {which : Flight → Bool}

/-! ## Attempts in flight -/

theorem called_of_result {x : Worker} {result : ProviderResult} (hf : x.flight? = some f)
    (hr : f.result = some result) : f.called = true := by
  cases x <;> cases hf <;> first | rfl | cases hr

theorem responded_of_apply {t₁ t₂ : Time} {ids : EventIds}
    (h : step env s (.worker w (.apply t₁ t₂ ids)) = some s') :
    ∃ d n result, s.workers w = .responded d n result := by
  have hchange : WorkerChange env s w (.apply t₁ t₂ ids) s' := workerStep_cases h
  cases hchange with
  | apply hw | applyRaises hw => exact ⟨_, _, _, hw⟩

/-- `g` is the attempt `f`, perhaps further on. -/
def Flight.Proceeds (f g : Flight) : Prop :=
  g.loaded = f.loaded ∧ (f.called = true → g.called = true) ∧
    ∀ result, f.result = some result → g.result = some result

theorem proceeds_refl (f : Flight) : f.Proceeds f := ⟨rfl, fun h => h, fun _ h => h⟩

theorem workerStep_flight {b : WorkerAction} (h : workerStep env s w b = some s')
    (hf : (s.workers w).flight? = some f) :
    (∃ g, (s'.workers w).flight? = some g ∧ f.Proceeds g) ∨ (∃ dead, b = .crash dead) ∨
      ∃ t₁ t₂ ids result, b = .apply t₁ t₂ ids ∧ f.result = some result := by
  cases workerStep_cases h with
  | get hw | reserve hw | reserveRaises hw | ack hw | reject hw =>
    cases hf.symm.trans (congrArg Worker.flight? hw)
  | send hw | answer hw | sendRaises hw =>
    cases hf.symm.trans (congrArg Worker.flight? hw)
    refine .inl ⟨_, congrArg Worker.flight? setWorker_self, rfl, fun _ => rfl, fun _ hr => ?_⟩
    cases hr
  | apply hw | applyRaises hw =>
    cases hf.symm.trans (congrArg Worker.flight? hw)
    exact .inr (.inr ⟨_, _, _, _, rfl, rfl⟩)
  | crash => exact .inr (.inl ⟨_, rfl⟩)
  | disconnect =>
    refine .inl ⟨f, ?_, proceeds_refl f⟩
    rw [show _ = (s.workers w).disconnected from setWorker_self, disconnected_flight, hf]

/-- An attempt stays in flight until its worker crashes or applies its result. -/
theorem flight_stays (h : step env s a = some s') (hf : (s.workers w).flight? = some f) :
    (∃ g, (s'.workers w).flight? = some g ∧ f.Proceeds g) ∨
      (∃ dead, a = .worker w (.crash dead)) ∨
      ∃ t₁ t₂ ids result, a = .worker w (.apply t₁ t₂ ids) ∧ f.result = some result := by
  have same (hw : s'.workers w = s.workers w) :
      ∃ g, (s'.workers w).flight? = some g ∧ f.Proceeds g := ⟨f, hw ▸ hf, proceeds_refl f⟩
  rcases step_party h with ⟨v, b, rfl, hstep⟩ | ⟨p, b, rfl, hstep⟩ | hframe
  · by_cases hv : w = v
    · subst hv
      rcases workerStep_flight hstep hf with h | ⟨dead, rfl⟩ | ⟨t₁, t₂, ids, result, rfl, hr⟩
      · exact .inl h
      · exact .inr (.inl ⟨dead, rfl⟩)
      · exact .inr (.inr ⟨t₁, t₂, ids, result, rfl, hr⟩)
    · exact .inl (same ((workerStep_frame hstep).workers w hv))
  · exact .inl (same (by rw [(publisherStep_frame hstep).workers]))
  · exact .inl (same (by rw [hframe.workers]))

/-! ## The apply of an attempt -/

theorem apply_total {cfg : Settings} {st : Store} (payload : Payload) {n loaded : Notification}
    {result : ProviderResult} {t₁ : Time} (t₂ : Time) {ids : EventIds}
    (hget : st.notifications.get id = some n) (hfresh : ∀ e ∈ st.outbox, e.id ≠ ids.rowId)
    (hretry : ∀ e, (result.success && result.delivered) = false →
      retryUntil cfg loaded.attempts result t₁ ≠ .error e) (hfits : result.storable = true) :
    ∃ st', apply cfg st id payload loaded result t₁ t₂ ids = .ok st' := by
  have committed {x : Except Raised Store} (hx : ∃ st', x = .ok st') :
      ∃ st', commitResult result x = .ok st' := by
    obtain ⟨st', rfl⟩ := hx
    exact ⟨st', by simp [commitResult, hfits]⟩
  simp only [apply, hget]
  split
  · exact ⟨st, rfl⟩
  · split
    · exact committed ⟨_, rfl⟩
    · next hdel =>
      split
      · next e he => exact absurd he (hretry e (by simpa using hdel))
      · exact committed (addOutboxEvent_of_fresh _ _ hfresh)
      · exact committed (addOutboxEvent_of_fresh _ _ hfresh)

theorem retryUntil_total {cfg : Settings} {attempts : Nat} {result : ProviderResult} {t : Time}
    (hne : cfg.retryBackoffList ≠ [])
    (hadd : ∀ delay, result.errorType = some .temporary →
      cfg.retryPolicy.decide attempts = .ok ⟨true, some delay⟩ → addSeconds t delay ≠ none)
    (e : Raised) : retryUntil cfg attempts result t ≠ .error e := by
  unfold retryUntil
  split
  · nofun
  · next htemp =>
    split
    · next he => exact absurd he (decide_ne_error hne attempts _)
    · nofun
    · nofun
    · next delay hd =>
      split
      · next hnone => exact absurd hnone (hadd delay (not_not.1 htemp) hd)
      · nofun

theorem apply_commits (hs : Referenced s) (hne : env.retryBackoffList ≠ []) {t₁ t₂ : Time}
    {ids : EventIds} {result : ProviderResult}
    (h : step env s (.worker w (.apply t₁ t₂ ids)) = some s')
    (hf : (s.workers w).flight? = some f) (hr : f.result = some result)
    (hfits : result.storable = true) (hadd : ∀ delay, (result.success && result.delivered) = false →
      result.errorType = some .temporary →
      env.retryPolicy.decide f.loaded.attempts = .ok ⟨true, some delay⟩ →
      addSeconds t₁ delay ≠ none) :
    ∃ d st, s.workers w = .responded d f.loaded result ∧ s.now ≤ t₁ ∧ t₁ ≤ t₂ ∧
      Applied env.toSettings s.store d.message.payload.notificationId d.message.payload f.loaded
        result t₁ t₂ ids st ∧
      s' = afterApply s w d t₂ (.ok st) := by
  have hchange : WorkerChange env s w (.apply t₁ t₂ ids) s' := workerStep_cases h
  cases hchange with
  | apply hw h₁ h₂ _ happ =>
    cases hf.symm.trans (congrArg Worker.flight? hw)
    cases hr
    exact ⟨_, _, hw, h₁, h₂, happ, rfl⟩
  | @applyRaises d n r _ _ _ e hw _ _ hfresh herr =>
    cases hf.symm.trans (congrArg Worker.flight? hw)
    cases hr
    obtain ⟨hid, m, hm⟩ := hs.flights w _ hf
    obtain ⟨st, hst⟩ := apply_total d.message.payload t₂ (hid ▸ hm)
      (fun e he heq => hfresh.2 ids.rowId (by simp) (heq ▸ mem_uuids_of_event he))
      (fun e hdel => retryUntil_total hne (fun delay => hadd delay hdel) e) hfits
    cases hst.symm.trans herr

/-! ## Timely runs -/

/-- The clock has not reached the lock of any attempt in flight that `which` picks. -/
def State.InTime (which : Flight → Bool) (s : State) : Prop :=
  ∀ w f lockUntil, (s.workers w).flight? = some f → which f = true →
    f.loaded.processingLockUntil = some lockUntil → s.now < lockUntil

/-- Of the attempts that `which` picks, none is overtaken by its lock and none is lost to a
crash; and a result is applied while the lock that a retry needs is a `datetime`, and is one that
the columns hold. -/
def Timely (env : Deployment) (which : Flight → Bool) (s : State) (a : Action) : Prop :=
  (∀ s', step env s a = some s' → s'.InTime which) ∧
    match a with
    | .worker w (.crash _) => ∀ f, (s.workers w).flight? = some f → which f = false
    | .worker w (.apply t₁ _ _) =>
      ∀ f result, (s.workers w).flight? = some f → f.result = some result →
        result.storable = true ∧
        ∀ delay, (result.success && result.delivered) = false →
          result.errorType = some .temporary →
          env.retryPolicy.decide f.loaded.attempts = .ok ⟨true, some delay⟩ →
          addSeconds t₁ delay ≠ none
    | _ => True

/-- Every provider call ends, and its result is applied, before its lock ends. -/
abbrev CallsTimely (env : Deployment) : State → Action → Prop := Timely env (·.called)

/-- So is every attempt, whether its provider has been called or not. -/
abbrev AttemptsTimely (env : Deployment) : State → Action → Prop := Timely env fun _ => true

theorem inTime_reach (h : (machine env).Reach (Timely env which) s) : s.InTime which := by
  refine Machine.Reach.induct (I := State.InTime which) ?_ ?_ h
  · rintro _ ⟨now, rfl⟩ w f lockUntil hf
    cases hf
  · exact fun t a t' _ _ hok hstep => hok.1 t' hstep

theorem callsTimely_of_attempts (h : (machine env).Reach (AttemptsTimely env) s) :
    (machine env).Reach (CallsTimely env) s := by
  refine h.imp fun t a t' _ hok _ => ⟨fun t' ht' w f lockUntil hf _ =>
    hok.1 t' ht' w f lockUntil hf rfl, ?_⟩
  cases a with
  | worker w b =>
    cases b with
    | crash dead => exact fun f hf => absurd (hok.2 f hf) (by simp)
    | apply t₁ t₂ ids => exact hok.2
    | _ => trivial
  | _ => trivial

theorem applies_in_time (h : (machine env).Reach (CallsTimely env) s) :
    (machine env).Reach AppliesInTime s := by
  refine h.imp fun t a t' ht hok hstep => ?_
  cases a with
  | worker w b =>
    cases b with
    | apply t₁ t₂ ids =>
      intro f lockUntil hf hL
      obtain ⟨d, n, result, hw⟩ := responded_of_apply hstep
      cases hf.symm.trans (congrArg Worker.flight? hw)
      exact inTime_reach ht w _ lockUntil hf rfl hL
    | _ => trivial
  | _ => trivial

/-! ## Who holds the row -/

section calls

variable {v : Nat} {g : Flight} {n : Notification} {lockUntil : Time}

theorem row_of_timely (h : (machine env).Reach (CallsTimely env) s)
    (hf : (s.lifecycle id).flights w = some f) (hL : f.loaded.processingLockUntil = some lockUntil)
    (hnow : s.now < lockUntil) : (s.lifecycle id).row = some f.loaded :=
  owned_reach (applies_in_time h) id w f lockUntil hf hL hnow

/-- An attempt that can no longer be called in time. -/
def Flight.Stale (f : Flight) (now : Time) : Prop :=
  f.called = false ∧ ∀ lockUntil, f.loaded.processingLockUntil = some lockUntil → lockUntil ≤ now

/-- While one attempt's lock runs, every other attempt is stale. -/
theorem others_stale (h : (machine env).Reach (CallsTimely env) s)
    (hf : (s.lifecycle id).flights w = some f) (hL : f.loaded.processingLockUntil = some lockUntil)
    (hnow : s.now < lockUntil) (hg : (s.lifecycle id).flights v = some g) (hne : v ≠ w) :
    g.Stale s.now := by
  have ended : ∀ L, g.loaded.processingLockUntil = some L → L ≤ s.now := by
    intro L hgL
    by_contra hlt
    have hrow := row_of_timely h hg hgL (not_le.1 hlt)
    rw [row_of_timely h hf hL hnow] at hrow
    exact hne (owner_unique (counted_reach h id) hg hf (Option.some.inj hrow).symm)
  refine ⟨?_, ended⟩
  by_contra hcalled
  obtain ⟨-, L, hgL⟩ := (sound_reach h id).flights v g hg
  have hlt := inTime_reach h v g L (flightOf_eq_some.1 hg).1 (by simpa using hcalled) hgL
  exact absurd (ended L hgL) (not_le.2 hlt)

theorem calls_single (h : (machine env).Reach (CallsTimely env) s)
    (hf : (s.lifecycle id).flights v = some f) (hg : (s.lifecycle id).flights w = some g)
    (hfc : f.called = true) (hgc : g.called = true) : v = w := by
  obtain ⟨-, L, hL⟩ := (sound_reach h id).flights w g hg
  have hlt := inTime_reach h w g L (flightOf_eq_some.1 hg).1 hgc hL
  by_contra hne
  have hstale := others_stale h hg hL hlt hf hne
  rw [hstale.1] at hfc
  cases hfc

/-- Every attempt in flight is stale. -/
def Lifecycle.Idle (l : Lifecycle) : Prop := ∀ w f, l.flights w = some f → f.Stale l.now

theorem Flight.Stale.mono {now now' : Time} (h : f.Stale now) (hle : now ≤ now')
    (hl : g.loaded = f.loaded) (hc : g.called = f.called) : g.Stale now' :=
  ⟨hc.trans h.1, fun L hL => (h.2 L (hl ▸ hL)).trans hle⟩

/-- **A step with every attempt stale** leaves the row and the calls alone, unless it finds the
row open and its lock ended. -/
theorem idle_step (ht : (machine env).Reach (CallsTimely env) s) (hok : CallsTimely env s a)
    (hstep : step env s a = some s') (hrow : (s.lifecycle id).row = some n)
    (hidle : (s.lifecycle id).Idle) :
    ((s'.lifecycle id).row = some n ∧ (s'.lifecycle id).calls = (s.lifecycle id).calls ∧
        (s'.lifecycle id).Idle) ∨
      n.isFinal = false ∧ ∀ lockUntil, n.status = .sent → n.processingLockUntil = some lockUntil →
        lockUntil ≤ s'.now := by
  have hle := (lifecycle_step ht hstep id).now_le
  -- a stale attempt has no result to apply
  have unanswered {v : Nat} {g : Flight} {result : ProviderResult}
      (hg : (s.lifecycle id).flights v = some g) (hr : g.result = some result) : False := by
    have hcalled := called_of_result (flightOf_eq_some.1 hg).1 hr
    rw [(hidle v g hg).1] at hcalled
    cases hcalled
  have hlife := lifecycle_step ht hstep id
  generalize hl' : s'.lifecycle id = l' at hlife hle ⊢
  have hnow : l'.now = s'.now := by rw [← hl']; rfl
  cases hlife with
  | quiet _ hr _ _ hc hfl =>
    refine .inl ⟨hr.trans hrow, hc, fun v g hg => ?_⟩
    obtain ⟨g₀, hg₀, hsame, -, hcalled⟩ := hfl v g hg
    exact (hidle v g₀ hg₀).mono hle hsame hcalled
  | create hnone => cases hnone.symm.trans hrow
  | @call v g hg =>
    -- the attempt would be called after its lock has ended
    obtain ⟨-, L, hL⟩ := (sound_reach ht id).flights v g hg
    have hg' : (s'.lifecycle id).flights v = some { g with called := true } := by
      rw [hl']
      simp
    have hlt := hok.1 s' hstep v _ L (flightOf_eq_some.1 hg').1 rfl hL
    exact absurd (((hidle v g hg).2 L hL).trans hle) (not_le.2 (hnow ▸ hlt))
  | reserve h₁ h₂ h₃ hm hopen hlock =>
    obtain rfl := Option.some.inj (hrow.symm.trans hm)
    refine .inr ⟨hopen, fun L hsent hL => ?_⟩
    exact hnow ▸ (lock_ended hsent hL hlock).trans (h₂.trans h₃)
  | defer => exact .inl ⟨hrow, rfl, fun v g hg => (hidle v g hg).mono hle rfl rfl⟩
  | refuse h₁ h₂ h₃ hm hopen hlock =>
    obtain rfl := Option.some.inj (hrow.symm.trans hm)
    refine .inr ⟨hopen, fun L hsent hL => ?_⟩
    exact hnow ▸ (lock_ended hsent hL hlock).trans (h₂.trans h₃)
  | deliver _ _ hf hr => exact (unanswered hf hr).elim
  | retry _ _ hf hr => exact (unanswered hf hr).elim
  | drop _ _ hf hr => exact (unanswered hf hr).elim

end calls

/-! ## Short runs -/

/-- The lock of an attempt ends `processing_lock_ttl_seconds` after the start of the run, or
later. -/
theorem locks_run {now : Time} {as : List Action}
    (hrun : (machine env).Run Machine.Always (.initial now) as s) (id : Uuid) :
    now ≤ s.now ∧ ∀ w f lockUntil, (s.lifecycle id).flights w = some f →
      f.loaded.processingLockUntil = some lockUntil →
      now + env.processingLockTtlSeconds * 1000000 ≤ lockUntil := by
  refine lifecycle_run (I := fun l => now ≤ l.now ∧ ∀ w f lockUntil, l.flights w = some f →
    f.loaded.processingLockUntil = some lockUntil →
    now + env.processingLockTtlSeconds * 1000000 ≤ lockUntil) (.init ⟨now, rfl⟩)
    ⟨le_rfl, fun w f lockUntil hf => by cases hf⟩ (fun t a l' _ _ hl hstep => ?_) hrun
  obtain ⟨hnow, hlocks⟩ := hl
  refine ⟨hnow.trans hstep.now_le, fun v g L hg hL => ?_⟩
  cases hstep with
  | quiet _ _ _ _ _ hfl =>
    obtain ⟨g₀, hg₀, hsame, -⟩ := hfl v g hg
    exact hlocks v g₀ L hg₀ (hsame ▸ hL)
  | create => exact hlocks v g L hg hL
  | call hw =>
    rcases of_update_some hg with ⟨rfl, rfl⟩ | ⟨-, hv⟩
    · exact hlocks v _ L hw hL
    · exact hlocks v g L hv hL
  | reserve h₁ h₂ _ _ _ _ _ hadd =>
    rcases of_update_some hg with ⟨rfl, rfl⟩ | ⟨-, hv⟩
    · cases hL
      rw [addSeconds_eq_some hadd]
      exact Int.add_le_add_right (hnow.trans (h₁.trans h₂)) _
    · exact hlocks v g L hv hL
  | defer | refuse => exact hlocks v g L hg hL
  | deliver | retry | drop => exact hlocks v g L (of_update_none hg).2 hL

/-- The actions that end an attempt. -/
def Action.endsAttempt : Action → Bool
  | .worker _ (.crash _) | .worker _ (.apply _ _ _) => true
  | _ => false

/-- A run shorter than a lock, in which no attempt ends, is timely. -/
theorem timely_of_short {now : Time} {as : List Action}
    (hrun : (machine env).Run Machine.Always (.initial now) as s)
    (hshort : s.now < now + env.processingLockTtlSeconds * 1000000)
    (has : ∀ a ∈ as, a.endsAttempt = false) :
    (machine env).Run (Timely env which) (.initial now) as s := by
  induction hrun with
  | nil => exact .nil
  | @snoc as t s a hr hok hstep ih =>
    have hle : t.now ≤ s.now := (change_of_step hstep).now_le
    have hlast : a.endsAttempt = false := has a (by simp)
    refine .snoc (ih (lt_of_le_of_lt hle hshort) fun b hb => has b (by simp [hb])) ⟨?_, ?_⟩ hstep
    · intro s' hs' w f L hf _ hL
      obtain rfl := Option.some.inj (hstep.symm.trans hs')
      have hlocks := (locks_run (hr.snoc hok hstep) f.loaded.id).2 w f L
      exact lt_of_lt_of_le hshort (hlocks (flightOf_eq_some.2 ⟨hf, rfl⟩) hL)
    · cases a with
      | worker w b =>
        cases b with
        | crash | apply => cases hlast
        | _ => trivial
      | _ => trivial

end NotificationSystem
