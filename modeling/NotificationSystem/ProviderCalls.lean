import NotificationSystem.Simulation

/-!
# How often the provider is called

The attempt counter is the number of reservations: each one writes a `sent` row and permits
one call. Calls happen outside the transaction that counts them, so the invariant tells
apart the attempts that have been called from those still to be.

* `Counted` — the counter, the history, the calls and the attempts in flight agree.
* `provider_calls_bounded` — the provider is called at most `max_retries` times.
-/

namespace NotificationSystem

open Lib

variable {env : Deployment} {s s' : State} {a : Action} {id : Uuid} {cfg : Settings}
  {l l' : Lifecycle}

/-- The calls made so far are for different attempts, each one reserved. -/
structure Lifecycle.Counted (cfg : Settings) (l : Lifecycle) : Prop where
  sent : l.sentRows = l.attempts
  bound : (l.attempts : Int) ≤ max 0 cfg.maxRetries
  flights : ∀ w f, l.flights w = some f →
    0 < f.loaded.attempts ∧ f.loaded.attempts ≤ l.attempts
  distinct : ∀ v w f g, l.flights v = some f → l.flights w = some g →
    f.loaded.attempts = g.loaded.attempts → v = w
  calls : ∀ c ∈ l.calls, 0 < c.attempt ∧ c.attempt ≤ l.attempts
  nodup : (l.calls.map (·.attempt)).Nodup
  uncalled : ∀ w f, l.flights w = some f → f.called = false →
    ∀ c ∈ l.calls, c.attempt ≠ f.loaded.attempts

theorem counted_initial (now : Time) : (Lifecycle.initial now).Counted cfg where
  sent := rfl
  bound := by simp [Lifecycle.initial, Lifecycle.attempts]
  flights _ _ h := by cases h
  distinct _ _ _ _ h := by cases h
  calls _ h := by cases h
  nodup := List.nodup_nil
  uncalled _ _ h := by cases h

theorem counted_flights (hl : l.Counted cfg) (h : l.Step cfg a l') :
    (∀ w f, l'.flights w = some f → 0 < f.loaded.attempts ∧ f.loaded.attempts ≤ l'.attempts) ∧
      ∀ v w f g, l'.flights v = some f → l'.flights w = some g →
        f.loaded.attempts = g.loaded.attempts → v = w := by
  have hle := h.attempts_le
  refine ⟨fun w f hf => ?_, fun v w f g hf hg heq => ?_⟩
  · rcases h.flight hf with ⟨f₀, hf₀, hl₀, -⟩ | ⟨n, lockUntil, -, hnew, hrow, -⟩
    · obtain ⟨hpos, hbound⟩ := hl.flights w f₀ hf₀
      rw [hl₀]
      exact ⟨hpos, hbound.trans hle⟩
    · rw [hnew, Lifecycle.attempts, hrow]
      exact ⟨Nat.succ_pos _, le_rfl⟩
  · -- an attempt reserved by this step is above every other one
    have above {x : Nat} {f g : Flight} (hx : l.flights x = some g)
        {n : Notification} {lockUntil : Time} (hnew : f.loaded = n.reserved lockUntil)
        (hrow : l.row = some n) : g.loaded.attempts < f.loaded.attempts := by
      have := (hl.flights x g hx).2
      rw [hnew]
      simp only [Lifecycle.attempts, hrow, Option.map_some, Option.getD_some] at this
      exact Nat.lt_succ_of_le this
    rcases h.flight hf with ⟨f₀, hf₀, hlf, -⟩ | ⟨n, lockUntil, hrow, hnew, -, hothers⟩
    · rcases h.flight hg with ⟨g₀, hg₀, hlg, -⟩ | ⟨n, lockUntil, hrow, hnew, -⟩
      · exact hl.distinct v w f₀ g₀ hf₀ hg₀ (by rw [← hlf, ← hlg, heq])
      · have := above hf₀ hnew hrow
        rw [← hlf] at this
        omega
    · by_contra hne
      have := above (hothers w g (fun h => hne h.symm) hg) hnew hrow
      omega

theorem counted_calls (hl : l.Counted cfg) (h : l.Step cfg a l') :
    (∀ c ∈ l'.calls, 0 < c.attempt ∧ c.attempt ≤ l'.attempts) ∧
      (l'.calls.map (·.attempt)).Nodup ∧
        ∀ w f, l'.flights w = some f → f.called = false →
          ∀ c ∈ l'.calls, c.attempt ≠ f.loaded.attempts := by
  have hle := h.attempts_le
  have hcalls : ∀ c ∈ l.calls, 0 < c.attempt ∧ c.attempt ≤ l'.attempts := fun c hc =>
    ⟨(hl.calls c hc).1, (hl.calls c hc).2.trans hle⟩
  cases h with
  | quiet _ _ _ _ hc hfl =>
    refine ⟨hc ▸ hcalls, hc ▸ hl.nodup, fun w f' hf' hcalled => ?_⟩
    obtain ⟨f, hf, hl', -, hcalled'⟩ := hfl w f' hf'
    rw [hc, hl']
    exact hl.uncalled w f hf (hcalled' ▸ hcalled)
  | create _ _ _ hc hnone =>
    refine ⟨hcalls, hl.nodup, fun w f hf => ?_⟩
    exact absurd hf (by simp [hnone])
  | @call w f hw hcalled _ =>
    refine ⟨fun c hc => ?_, ?_, fun v g hg hgc c hc => ?_⟩
    · rcases List.mem_append.1 hc with hc | hc
      · exact hcalls c hc
      · obtain rfl := List.mem_singleton.1 hc
        exact hl.flights w f hw
    · rw [List.map_append, List.map_singleton]
      refine hl.nodup.append (List.nodup_singleton _) fun k hk hk' => ?_
      obtain rfl := List.mem_singleton.1 hk'
      obtain ⟨c, hc, heq⟩ := List.mem_map.1 hk
      exact hl.uncalled w f hw hcalled c hc heq
    · rcases of_update_some hg with ⟨-, rfl⟩ | ⟨hne, hv⟩
      · cases hgc
      · rcases List.mem_append.1 hc with hc | hc
        · exact hl.uncalled v g hv hgc c hc
        · obtain rfl := List.mem_singleton.1 hc
          exact fun heq => hne (hl.distinct v w g f hv hw heq.symm)
  | @reserve w t₁ t₂ t₃ lockUntil ids n payload _ _ _ hrow =>
    refine ⟨hcalls, hl.nodup, fun v g hg hgc c hc => ?_⟩
    rcases of_update_some hg with ⟨-, rfl⟩ | ⟨-, hv⟩
    · -- no call was made for the attempt just reserved
      have := (hl.calls c hc).2
      simp only [Lifecycle.attempts, hrow, Option.map_some, Option.getD_some] at this
      exact (Nat.lt_succ_of_le this).ne
    · exact hl.uncalled v g hv hgc c hc
  | defer | refuse => exact ⟨hcalls, hl.nodup, hl.uncalled⟩
  | deliver | retry | drop =>
    exact ⟨hcalls, hl.nodup, fun v g hg => hl.uncalled v g (of_update_none hg).2⟩

theorem counted_step (hl : l.Counted cfg) (h : l.Step cfg a l') : l'.Counted cfg := by
  obtain ⟨hflights, hdistinct⟩ := counted_flights hl h
  obtain ⟨hcalls, hnodup, huncalled⟩ := counted_calls hl h
  have hsent := hl.sent
  have hbound := hl.bound
  refine ⟨?_, ?_, hflights, hdistinct, hcalls, hnodup, huncalled⟩
  · rcases h.counts with ⟨h₁, h₂⟩ | ⟨h₁, h₂, -⟩ <;> omega
  · rcases h.counts with ⟨h₁, -⟩ | ⟨h₁, -, h₃⟩ <;> omega

theorem counted_reach {ok : State → Action → Prop} (h : (machine env).Reach ok s) (id : Uuid) :
    (s.lifecycle id).Counted env.toSettings :=
  lifecycle_induct (fun now => counted_initial now)
    (fun _ _ _ _ _ hl hstep => counted_step hl hstep) h

theorem sent_of_flight (hs : l.Sound) (hc : l.Counted cfg) {w : Nat} {f : Flight}
    {n : Notification} (hf : l.flights w = some f) (hrow : l.row = some n)
    (hopen : n.isFinal = false) : n.status = .sent := by
  cases hstatus : n.status with
  | queued =>
    have hpos := hc.flights w f hf
    have hzero := hs.queued n hrow hstatus
    simp only [Lifecycle.attempts, hrow, Option.map_some, Option.getD_some] at hpos
    omega
  | sent => rfl
  | delivered => simp [Notification.isFinal, hstatus] at hopen
  | dropped => simp [Notification.isFinal, hstatus] at hopen

theorem lock_ended {n : Notification} {t lockUntil : Time} (hsent : n.status = .sent)
    (hL : n.processingLockUntil = some lockUntil) (h : n.hasActiveProcessingLock t = false) :
    lockUntil ≤ t := by
  simpa [Notification.hasActiveProcessingLock, hsent, hL] using h

/-! ## The bound -/

/-- Different numbers from 1 to `m` are at most `m`. -/
theorem length_le_of_nodup {ks : List Nat} {m : Nat} (hnd : ks.Nodup)
    (h : ∀ k ∈ ks, 0 < k ∧ k ≤ m) : ks.length ≤ m := by
  have hsub : ks.toFinset ⊆ Finset.Icc 1 m := fun k hk =>
    Finset.mem_Icc.2 (h k (List.mem_toFinset.1 hk))
  have hcard := Finset.card_le_card hsub
  rwa [List.toFinset_card_of_nodup hnd, Nat.card_Icc, Nat.add_sub_cancel] at hcard

theorem Lifecycle.Counted.calls_length (hl : l.Counted cfg) : l.calls.length ≤ l.attempts := by
  have hle := length_le_of_nodup hl.nodup fun k hk => by
    obtain ⟨c, hc, rfl⟩ := List.mem_map.1 hk
    exact hl.calls c hc
  rwa [List.length_map] at hle

/-- **The provider is called at most `max_retries` times.** In every reachable state the calls
for a notification are at most its `sent` rows, which are its attempts, which are at most
`max_retries`; and the attempts never decrease. -/
theorem provider_calls_bounded {n : Notification} (h : (machine env).Reach Machine.Always s)
    (hn : s.store.notifications.get id = some n) :
    (s.callsOf id).length ≤ (s.store.historyOf id).countP (·.status = .sent) ∧
      (s.store.historyOf id).countP (·.status = .sent) = n.attempts ∧
      (n.attempts : Int) ≤ max 0 env.maxRetries ∧
      ∀ as s', (machine env).Run Machine.Always s as s' →
        ∃ n', s'.store.notifications.get id = some n' ∧ n.attempts ≤ n'.attempts := by
  have hc := counted_reach h id
  have hattempts : (s.lifecycle id).attempts = n.attempts := by
    simp [Lifecycle.attempts, State.lifecycle, hn]
  refine ⟨?_, hc.sent.trans hattempts, hattempts ▸ hc.bound, fun as s' hrun => ?_⟩
  · have hle := hc.calls_length
    rw [← hc.sent] at hle
    exact hle
  · refine Machine.Run.induct (I := fun t => ∃ n', t.store.notifications.get id = some n' ∧
      n.attempts ≤ n'.attempts) h ⟨n, hn, le_rfl⟩ (fun t a t' _ ht _ hstep => ?_) hrun
    obtain ⟨n₁, hget, hle⟩ := ht
    obtain ⟨n₂, hget₂, hle₂⟩ := (change_of_step hstep).extends.notifications hget
    exact ⟨n₂, hget₂, hle.trans hle₂⟩

/-- Two attempts of one notification, the second after the first one's lock: two calls. -/
theorem provider_calls_bounded_twice : ∃ s n, s.store.notifications.get 1 = some n ∧
    n.attempts = 2 ∧ (s.callsOf 1).length = 2 ∧
      ((s.callsOf 1).length ≤ (s.store.historyOf 1).countP (·.status = .sent) ∧
        (s.store.historyOf 1).countP (·.status = .sent) = n.attempts ∧
        (n.attempts : Int) ≤ max 0 Sample.env.maxRetries ∧
        ∀ as s', (machine Sample.env).Run Machine.Always s as s' →
          ∃ n', s'.store.notifications.get 1 = some n' ∧ n.attempts ≤ n'.attempts) := by
  obtain ⟨s, hrun, hs⟩ := Machine.Run.exists_of_exec_always (machine Sample.env) (.initial 0)
    (Sample.attempt ++
      [.worker 0 .send, .worker 0 (.disconnect false), .worker 1 (.get .high Sample.message),
        .worker 1 (.reserve (Sample.sec 60) (Sample.sec 60) (Sample.sec 60) ⟨4, 5⟩),
        .worker 1 .send])
    (fun s => (s.store.notifications.get 1).any (·.attempts = 2) &&
      (s.callsOf 1).length = 2) (by decide)
  simp only [Bool.and_eq_true, Option.any_eq_true, decide_eq_true_eq] at hs
  obtain ⟨⟨n, hn, hattempts⟩, hcalls⟩ := hs
  exact ⟨s, n, hn, hattempts, hcalls,
    provider_calls_bounded (Machine.Reach.run (.init ⟨0, rfl⟩) hrun) hn⟩

end NotificationSystem
