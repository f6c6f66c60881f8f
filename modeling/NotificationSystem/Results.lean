import NotificationSystem.Config
import NotificationSystem.Timely

/-!
# What becomes of a provider's result

An apply falls through three tests: a delivery, an error that may be retried, and the rest, which
drops the notification. The second test computes a new lock and may raise, and so may the commit,
when a column cannot hold the provider's message id or its error.

* `Resulted`, `resulted_of_apply` — the four ways in which an apply on an open notification ends.
* `accepted_dropped` — a success that is not yet a delivery falls through to the drop.
* `result_decided` — otherwise an apply drops what may not be retried, and nothing else.
* `result_lost` — without a backoff list an apply raises.
* `result_recorded` — an apply commits exactly when the columns hold the result, and the retry it
  has to schedule has a lock.
-/

namespace NotificationSystem

open Lib

variable {env : Deployment} {s s' : State} {cfg : Settings} {attempts : Nat}
  {result : ProviderResult} {now : Time} {w : Nat} {d : Delivery} {n m : Notification}
  {t₁ t₂ : Time} {ids : EventIds}

/-! ## Retries -/

/-- The error is temporary and attempts are left. -/
def Settings.MayRetry (cfg : Settings) (attempts : Nat) (result : ProviderResult) : Prop :=
  result.errorType = some .temporary ∧ (attempts : Int) < cfg.maxRetries

/-- There is a delay after the attempt, and it leads to a `datetime`. -/
def Settings.RetryDue (cfg : Settings) (attempts : Nat) (now : Time) : Prop :=
  ∃ delay lockUntil, cfg.backoffEntry attempts = some delay ∧ addSeconds now delay = some lockUntil

theorem backoffEntry_nil (h : cfg.retryBackoffList = []) : cfg.backoffEntry attempts = none := by
  unfold Settings.backoffEntry
  split <;> simp [h]

theorem decide_nil (h : cfg.retryBackoffList = []) (hlt : (attempts : Int) < cfg.maxRetries) :
    cfg.retryPolicy.decide attempts = .error .indexError := by
  simp [RetryPolicy.decide, Settings.retryPolicy, h, not_le.2 hlt]

/-- The three ways in which `_schedule_retry_if_needed` decides. -/
inductive RetryDecided (cfg : Settings) (attempts : Nat) (result : ProviderResult) (now : Time) :
    Except Raised (Option (Int × Time)) → Prop
  | none : ¬ cfg.MayRetry attempts result → RetryDecided cfg attempts result now (.ok none)
  | some {delay : Int} {lockUntil : Time} : cfg.MayRetry attempts result →
      cfg.RetryDue attempts now →
      RetryDecided cfg attempts result now (.ok (some (delay, lockUntil)))
  | error {e : Raised} : cfg.MayRetry attempts result → ¬ cfg.RetryDue attempts now →
      RetryDecided cfg attempts result now (.error e)

theorem retryUntil_decided (hpos : 0 < attempts) :
    RetryDecided cfg attempts result now (retryUntil cfg attempts result now) := by
  unfold retryUntil
  by_cases htemp : result.errorType = some .temporary
  · rw [if_neg (not_not.2 htemp)]
    by_cases hmax : cfg.maxRetries ≤ attempts
    · have hdecide : cfg.retryPolicy.decide attempts = .ok ⟨false, none⟩ := if_pos hmax
      rw [hdecide]
      exact .none fun h => not_lt.2 hmax h.2
    · have hlt := not_le.1 hmax
      by_cases hne : cfg.retryBackoffList = []
      · rw [decide_nil hne hlt]
        refine .error ⟨htemp, hlt⟩ ?_
        rintro ⟨delay, lockUntil, hentry, -⟩
        cases (backoffEntry_nil hne).symm.trans hentry
      · obtain ⟨delay, hentry, hdecide⟩ := decide_of_lt hne hpos hlt
        rw [hdecide]
        simp only
        cases hadd : addSeconds now delay with
        | none =>
          refine .error ⟨htemp, hlt⟩ ?_
          rintro ⟨delay', lockUntil, hentry', hadd'⟩
          cases hentry.symm.trans hentry'
          cases hadd.symm.trans hadd'
        | some lockUntil =>
          exact .some ⟨htemp, hlt⟩ ⟨delay, lockUntil, hentry, hadd⟩
  · rw [if_pos htemp]
    exact .none fun h => htemp h.1

/-! ## The outcomes of an apply -/

/-- The stored row of the notification has the status. -/
def State.HasStatus (s : State) (id : Uuid) (status : NotificationStatus) : Prop :=
  ∃ n, s.store.notifications.get id = some n ∧ n.status = status

theorem responded_of_result {f : Flight} (hf : (s.workers w).flight? = some f)
    (hr : f.result = some result) : ∃ d, s.workers w = .responded d f.loaded result := by
  cases hw : s.workers w with
  | idle | received | finished | failing =>
    rw [hw] at hf
    cases hf
  | reserved | calling =>
    rw [hw] at hf
    cases hf
    cases hr
  | responded d n r =>
    rw [hw] at hf
    cases hf
    cases hr
    exact ⟨d, rfl⟩

/-- From `s` to `s'` one event is added to the outbox, of this type and for this notification. -/
def AddsEvent (s s' : State) (id : Uuid) (eventType : EventType) : Prop :=
  ∃ e, s'.store.outbox.rows = s.store.outbox.rows ++ [e] ∧ e.eventType = eventType ∧
    e.aggregateId = id

/-- The four ways in which an apply ends: three commits, and a rollback. -/
inductive Resulted (cfg : Settings) (s : State) (w : Nat) (n : Notification)
    (result : ProviderResult) (now : Time) (s' : State) : Prop
  | delivered {d : Delivery} : result.success = true ∧ result.delivered = true →
      result.storable = true → s'.workers w = .finished d → s'.HasStatus n.id .delivered →
      s'.store.outbox = s.store.outbox → Resulted cfg s w n result now s'
  | retried {d : Delivery} : ¬ (result.success = true ∧ result.delivered = true) →
      cfg.MayRetry n.attempts result → cfg.RetryDue n.attempts now → result.storable = true →
      s'.workers w = .finished d → s'.HasStatus n.id .sent →
      AddsEvent s s' n.id .retryScheduled → Resulted cfg s w n result now s'
  | dropped {d : Delivery} : ¬ (result.success = true ∧ result.delivered = true) →
      ¬ cfg.MayRetry n.attempts result → result.storable = true → s'.workers w = .finished d →
      s'.HasStatus n.id .dropped → AddsEvent s s' n.id .failed → Resulted cfg s w n result now s'
  | raised {d : Delivery} : result.storable = false ∨
      ¬ (result.success = true ∧ result.delivered = true) ∧ cfg.MayRetry n.attempts result ∧
        ¬ cfg.RetryDue n.attempts now →
      s'.workers w = .failing d → s'.HasStatus n.id .sent → s'.store = s.store →
      Resulted cfg s w n result now s'

theorem resulted_of_apply (h : (machine env).Reach Machine.Always s)
    (hw : s.workers w = .responded d n result) (hm : s.store.notifications.get n.id = some m)
    (hopen : m.isFinal = false) (hstep : step env s (.worker w (.apply t₁ t₂ ids)) = some s') :
    Resulted env.toSettings s w n result t₁ s' := by
  have hflight : (s.lifecycle n.id).flights w = some _ :=
    flightOf_eq_some.2 ⟨congrArg Worker.flight? hw, rfl⟩
  have hsound := sound_reach h n.id
  have hcounted := counted_reach h n.id
  have hsent : n.status = .sent := (hsound.flights w _ hflight).1
  have hstored : m.status = .sent := sent_of_flight hsound hcounted hflight hm hopen
  have hpos : 0 < n.attempts := (hcounted.flights w _ hflight).1
  have hdecided : RetryDecided env.toSettings n.attempts result t₁ _ := retryUntil_decided hpos
  have hnot {b : Bool} (hb : (result.success && result.delivered) = b) :
      (result.success = true ∧ result.delivered = true) ↔ b = true := by
    rw [← hb, Bool.and_eq_true]
  have hchange : WorkerChange env s w (.apply t₁ t₂ ids) s' := workerStep_cases hstep
  cases hchange with
  | apply hw' h₁ h₂ hfresh happ =>
    cases hw.symm.trans hw'
    have hfinished := setWorker_self (s := s) (w := w) (x := .finished d)
    cases happ with
    | guarded hfin => simp [Notification.isFinal, hsent] at hfin
    | delivered _ hdel hfits =>
      refine .delivered ((hnot hdel).2 rfl) hfits hfinished ?_ rfl
      exact ⟨_, get_saveNotification_self _ hm, by
        simp [Notification.writeBack, Notification.markedDelivered, writeColumn, hsent]⟩
    | @retried delay lockUntil outbox _ hdel hretry hins hfits =>
      rw [hretry] at hdecided
      cases hdecided with
      | some hmay hdue =>
        refine .retried (by simp [hnot hdel]) hmay hdue hfits hfinished ?_ ?_
        · exact ⟨_, get_saveNotification_self _ hm, by
            simp [Notification.writeBack, Notification.awaitingRetry, Notification.withError,
              hstored]⟩
        · exact ⟨_, (Table.insert?_eq_some hins).1, rfl, rfl⟩
    | @dropped outbox _ hdel hretry hins hfits =>
      rw [hretry] at hdecided
      cases hdecided with
      | none hmay =>
        refine .dropped (by simp [hnot hdel]) hmay hfits hfinished ?_ ?_
        · exact ⟨_, get_saveNotification_self _ hm, by
            simp [Notification.writeBack, Notification.droppedByResult, Notification.withError,
              writeColumn, hsent]⟩
        · exact ⟨_, (Table.insert?_eq_some hins).1, rfl, rfl⟩
  | applyRaises hw' h₁ h₂ hfresh herr =>
    cases hw.symm.trans hw'
    have hid := ((referenced_reach h).flights w _ (congrArg Worker.flight? hw)).1
    refine .raised ?_ setWorker_self ⟨m, hm, hstored⟩ rfl
    by_cases hfits : result.storable = true
    · -- an apply of a storable result raises only where its retry cannot be scheduled
      have hraises : ∃ e, (result.success && result.delivered) = false ∧
          retryUntil env.toSettings n.attempts result t₁ = .error e := by
        by_contra hnone
        obtain ⟨st, hst⟩ := apply_total d.message.payload t₂ (hid ▸ hm)
          (fun e he heq => hfresh.2 ids.rowId (by simp) (heq ▸ mem_uuids_of_event he))
          (fun e hdel herr => hnone ⟨e, hdel, herr⟩) hfits
        cases hst.symm.trans herr
      obtain ⟨e, hdel, hretry⟩ := hraises
      rw [hretry] at hdecided
      cases hdecided with
      | error hmay hdue => exact .inr ⟨by simp [hnot hdel], hmay, hdue⟩
    · exact .inl (Bool.eq_false_iff.2 hfits)

/-! ## What is dropped -/

/-- An apply decides on the result alone: a delivery is delivered, what may be retried is retried,
and only a failure that may not be retried is dropped and announced as failed. -/
structure ResultDecided (cfg : Settings) (s : State) (n : Notification) (result : ProviderResult)
    (s' : State) : Prop where
  delivered : s'.HasStatus n.id .delivered ↔ result.success = true ∧ result.delivered = true
  retried : result.success = false → result.errorType = some .temporary →
    (n.attempts : Int) < cfg.maxRetries →
    AddsEvent s s' n.id .retryScheduled ∧ s'.HasStatus n.id .sent
  dropped : s'.HasStatus n.id .dropped ∨
      (∃ e ∈ s'.store.outbox, e ∉ s.store.outbox ∧ e.eventType = .failed) →
    result.success = false ∧
      (result.errorType ≠ some .temporary ∨ cfg.maxRetries ≤ (n.attempts : Int))

theorem hasStatus_inj {id : Uuid} {x y : NotificationStatus} (hx : s.HasStatus id x)
    (hy : s.HasStatus id y) : x = y := by
  obtain ⟨n, hn, rfl⟩ := hx
  obtain ⟨m, hm, rfl⟩ := hy
  cases hn.symm.trans hm
  rfl

/-- The event that is added is the only new one. -/
theorem addsEvent_new {id : Uuid} {eventType : EventType} (h : AddsEvent s s' id eventType)
    {e : OutboxEvent} (he : e ∈ s'.store.outbox) (hnew : e ∉ s.store.outbox) :
    e.eventType = eventType := by
  obtain ⟨f, hrows, htype, -⟩ := h
  rw [Table.mem_def, hrows] at he
  rcases List.mem_append.1 he with he | he
  · exact absurd he hnew
  · rw [List.mem_singleton.1 he, htype]

theorem not_mayRetry : ¬ cfg.MayRetry attempts result ↔
    result.errorType ≠ some .temporary ∨ cfg.maxRetries ≤ (attempts : Int) := by
  rw [Settings.MayRetry, not_and_or, not_lt]

/-- **An apply decides on the result** exactly when the columns hold the id of a delivery, a success
without delivery may be retried or cannot be recorded, and a failure that may be retried can be
recorded and has a delay that leads to a `datetime`. -/
theorem result_decided (h : (machine env).Reach Machine.Always s)
    (hw : s.workers w = .responded d n result) (hm : s.store.notifications.get n.id = some m)
    (hopen : m.isFinal = false) (hstep : step env s (.worker w (.apply t₁ t₂ ids)) = some s') :
    ResultDecided env.toSettings s n result s' ↔
      (result.success = true → result.delivered = true → result.storable = true) ∧
        (result.success = true → result.delivered = false →
          env.MayRetry n.attempts result ∨ result.storable = false) ∧
        (result.success = false → env.MayRetry n.attempts result →
          env.RetryDue n.attempts t₁ ∧ result.storable = true) := by
  cases resulted_of_apply h hw hm hopen hstep with
  | delivered hdel hfits _ hstatus hsame =>
    refine iff_of_true ⟨iff_of_true hstatus hdel, fun hfail => ?_, ?_⟩
      ⟨fun _ _ => hfits, fun _ hnot => ?_, fun hfail => ?_⟩
    · cases hdel.1.symm.trans hfail
    · rintro (hdropped | ⟨e, he, hnew, -⟩)
      · cases hasStatus_inj hstatus hdropped
      · exact absurd (hsame ▸ he) hnew
    · cases hdel.2.symm.trans hnot
    · cases hdel.1.symm.trans hfail
  | retried hdel hmay hdue hfits _ hstatus hadds =>
    refine iff_of_true ⟨iff_of_false ?_ hdel, fun _ _ _ => ⟨hadds, hstatus⟩, ?_⟩
      ⟨fun _ _ => hfits, fun _ _ => .inl hmay, fun _ _ => ⟨hdue, hfits⟩⟩
    · intro hdelivered
      cases hasStatus_inj hstatus hdelivered
    · rintro (hdropped | ⟨e, he, hnew, hfailed⟩)
      · cases hasStatus_inj hstatus hdropped
      · cases hfailed.symm.trans (addsEvent_new hadds he hnew)
  | dropped hdel hmay hfits _ hstatus hadds =>
    constructor
    · -- what is dropped must be a failure
      intro hdecided
      have hfail := (hdecided.dropped (.inl hstatus)).1
      refine ⟨fun _ _ => hfits, fun hsuccess => ?_, fun _ hmay' => absurd hmay' hmay⟩
      cases hsuccess.symm.trans hfail
    · rintro ⟨-, hsuccess, -⟩
      have hfail : result.success = false := by
        by_contra hne
        rw [Bool.not_eq_false] at hne
        have hnot : result.delivered = false := by
          by_contra hyes
          exact hdel ⟨hne, by simpa using hyes⟩
        rcases hsuccess hne hnot with hmay' | hunfit
        · exact hmay hmay'
        · cases hfits.symm.trans hunfit
      refine ⟨iff_of_false (fun hdelivered => ?_) hdel, fun _ htemp hlt => ?_, fun _ => ?_⟩
      · cases hasStatus_inj hstatus hdelivered
      · exact absurd ⟨htemp, hlt⟩ hmay
      · exact ⟨hfail, not_mayRetry.1 hmay⟩
  | raised hwhy _ hstatus hsame =>
    constructor
    · -- a rollback delivers nothing and schedules no retry
      intro hdecided
      refine ⟨fun hsuccess hdelivered => ?_, fun _ hnot => ?_, fun hfail hmay => ?_⟩
      · cases hasStatus_inj hstatus (hdecided.delivered.2 ⟨hsuccess, hdelivered⟩)
      · exact (hwhy.imp_right fun hraises => hraises.2.1).symm
      · obtain ⟨⟨e, hrows, -⟩, -⟩ := hdecided.retried hfail hmay.1 hmay.2
        rw [hsame] at hrows
        simp at hrows
    · rintro ⟨hdelivery, -, hretry⟩
      have hdel : ¬ (result.success = true ∧ result.delivered = true) := by
        rintro hdel
        rcases hwhy with hunfit | ⟨hnot, -⟩
        · cases hunfit.symm.trans (hdelivery hdel.1 hdel.2)
        · exact hnot hdel
      refine ⟨iff_of_false (fun hdelivered => ?_) hdel, fun hfail htemp hlt => ?_, ?_⟩
      · cases hasStatus_inj hstatus hdelivered
      · obtain ⟨hdue, hfits⟩ := hretry hfail ⟨htemp, hlt⟩
        rcases hwhy with hunfit | ⟨-, -, hnot⟩
        · cases hunfit.symm.trans hfits
        · exact absurd hdue hnot
      · rintro (hdropped | ⟨e, he, hnew, -⟩)
        · cases hasStatus_inj hstatus hdropped
        · rw [hsame] at he
          exact absurd he hnew

/-- The first attempt of the sample is answered by `result`, which is then applied. -/
def Sample.applies (env : Deployment) (result : ProviderResult) (test : State → Bool) : Bool :=
  ((machine env).exec (.initial 0)
    (Sample.attempt ++ [.worker 0 .send, .worker 0 (.answer result)])).any fun s =>
      (s.workers 0).flight?.any (fun f => f.result = some result && f.loaded.id = 1 &&
        f.loaded.attempts = 1) && (s.store.notifications.get 1).any (·.isFinal = false) &&
      ((machine env).exec s [.worker 0 (.apply 0 0 ⟨6, 7⟩)]).any test

theorem exists_applied (env : Deployment) (result : ProviderResult) (test : State → Bool)
    (h : Sample.applies env result test = true) : ∃ s s' d n m,
      (machine env).Reach Machine.Always s ∧ s.workers 0 = .responded d n result ∧ n.id = 1 ∧
        n.attempts = 1 ∧ s.store.notifications.get n.id = some m ∧ m.isFinal = false ∧
          step env s (.worker 0 (.apply 0 0 ⟨6, 7⟩)) = some s' ∧ test s' = true := by
  obtain ⟨s, hrun, hs⟩ := Machine.Run.exists_of_exec_always _ _ _ _ h
  rw [Bool.and_eq_true, Bool.and_eq_true, Option.any_eq_true, Option.any_eq_true] at hs
  obtain ⟨⟨⟨f, hf, hflight⟩, m, hm, hopen⟩, hnext⟩ := hs
  simp only [Bool.and_eq_true, decide_eq_true_eq] at hflight hopen
  obtain ⟨⟨hr, hid⟩, hattempts⟩ := hflight
  obtain ⟨s', hstep, hs'⟩ := Machine.step_of_exec hnext
  obtain ⟨d, hw⟩ := responded_of_result hf hr
  rw [← hid] at hm
  exact ⟨s, s', d, f.loaded, m, .run (.init ⟨0, rfl⟩) hrun, hw, hid, hattempts, hm, hopen, hstep,
    hs'⟩

/-- The first attempt of the sample meets a temporary error. -/
theorem result_decided_temporary : ∃ s s' n, n.attempts = 1 ∧
    ResultDecided Sample.env.toSettings s n Sample.temporaryError s' := by
  obtain ⟨s, s', d, n, m, hreach, hw, -, hattempts, hm, hopen, hstep, -⟩ :=
    exists_applied Sample.env Sample.temporaryError (fun _ => true) (by decide)
  refine ⟨s, s', n, hattempts, (result_decided hreach hw hm hopen hstep).2
    ⟨nofun, nofun, fun _ _ => ⟨?_, by decide⟩⟩⟩
  rw [hattempts]
  exact ⟨10, Sample.sec 10, rfl, rfl⟩

/-- **An accepted message is dropped** before its delivery is known. -/
theorem accepted_dropped : ¬ ∀ (env : Deployment) (s s' : State) (w : Nat) (d : Delivery)
    (n m : Notification) (result : ProviderResult) (t₁ t₂ : Time) (ids : EventIds),
    env.retryBackoffList ≠ [] → (machine env).Reach Machine.Always s →
      s.workers w = .responded d n result → s.store.notifications.get n.id = some m →
      m.isFinal = false → step env s (.worker w (.apply t₁ t₂ ids)) = some s' →
      ResultDecided env.toSettings s n result s' := by
  intro h
  obtain ⟨s, s', d, n, m, hreach, hw, hid, -, hm, hopen, hstep, hs'⟩ :=
    exists_applied Sample.env Sample.acceptedResult
      (fun s' => (s'.store.notifications.get 1).any (·.status = .dropped)) (by decide)
  have hdecided := h Sample.env s s' 0 d n m _ 0 0 _ (by decide) hreach hw hm hopen hstep
  simp only [Option.any_eq_true, decide_eq_true_eq] at hs'
  obtain ⟨hfail, -⟩ := hdecided.dropped (.inl (hid.symm ▸ hs'))
  cases hfail

/-! ## What is recorded -/

/-- The apply has committed a delivery, a retry or a drop. -/
def ResultRecorded (s : State) (w : Nat) (n : Notification) (s' : State) : Prop :=
  (∃ d, s'.workers w = .finished d) ∧
    (s'.HasStatus n.id .delivered ∨
      s'.HasStatus n.id .sent ∧ AddsEvent s s' n.id .retryScheduled ∨
      s'.HasStatus n.id .dropped ∧ AddsEvent s s' n.id .failed)

/-- **A result is recorded**, under every backoff setting that the configuration reads, exactly
when the columns hold it, and it is no retry, or the setting has an item and the delay leads to a
`datetime`. -/
theorem result_recorded {raw : String} (hraw : retryBackoffList raw = some env.retryBackoffList)
    (h : (machine env).Reach Machine.Always s) (hw : s.workers w = .responded d n result)
    (hm : s.store.notifications.get n.id = some m) (hopen : m.isFinal = false)
    (hstep : step env s (.worker w (.apply t₁ t₂ ids)) = some s') :
    ResultRecorded s w n s' ↔ result.storable = true ∧
      ((result.success = true ∧ result.delivered = true) ∨ result.errorType ≠ some .temporary ∨
        env.maxRetries ≤ (n.attempts : Int) ∨
        backoffItems raw ≠ [] ∧ env.RetryDue n.attempts t₁) := by
  cases resulted_of_apply h hw hm hopen hstep with
  | delivered hdel hfits hfinished hstatus =>
    exact iff_of_true ⟨⟨_, hfinished⟩, .inl hstatus⟩ ⟨hfits, .inl hdel⟩
  | retried _ _ hdue hfits hfinished hstatus hadds =>
    refine iff_of_true ⟨⟨_, hfinished⟩, .inr (.inl ⟨hstatus, hadds⟩)⟩
      ⟨hfits, .inr (.inr (.inr ⟨fun hnil => ?_, hdue⟩))⟩
    -- without an item there is no delay
    have hempty : env.retryBackoffList = [] := by
      rw [← List.length_eq_zero_iff, retryBackoffList_length hraw, hnil, List.length_nil]
    obtain ⟨delay, lockUntil, hentry, -⟩ := hdue
    cases (backoffEntry_nil hempty).symm.trans hentry
  | dropped _ hmay hfits hfinished hstatus hadds =>
    refine iff_of_true ⟨⟨_, hfinished⟩, .inr (.inr ⟨hstatus, hadds⟩)⟩ ⟨hfits, .inr ?_⟩
    exact (not_mayRetry.1 hmay).imp_right .inl
  | raised hwhy hfailing =>
    refine iff_of_false ?_ ?_
    · rintro ⟨⟨_, hfinished⟩, -⟩
      cases hfailing.symm.trans hfinished
    · rintro ⟨hfits, hcase⟩
      rcases hwhy with hunfit | ⟨hdel, hmay, hdue⟩
      · cases hunfit.symm.trans hfits
      rcases hcase with hdel' | htemp | hmax | ⟨-, hdue'⟩
      · exact hdel hdel'
      · exact htemp hmay.1
      · exact not_lt.2 hmax hmay.2
      · exact hdue hdue'

/-- The default setting records a temporary error. -/
theorem result_recorded_temporary : ∃ s s' n, n.attempts = 1 ∧
    ResultRecorded s 0 n s' := by
  have hraw : retryBackoffList "10,30,60" = some Sample.env.retryBackoffList := by decide
  obtain ⟨s, s', d, n, m, hreach, hw, -, hattempts, hm, hopen, hstep, -⟩ :=
    exists_applied Sample.env Sample.temporaryError (fun _ => true) (by decide)
  refine ⟨s, s', n, hattempts, (result_recorded hraw hreach hw hm hopen hstep).2 ?_⟩
  rw [hattempts]
  exact ⟨by decide, .inr (.inr (.inr ⟨by decide, 10, Sample.sec 10, rfl, rfl⟩))⟩

/-- **A result is lost**: with an empty setting the apply of a temporary error raises. -/
theorem result_lost : ¬ ∀ (env : Deployment) (raw : String) (s s' : State) (w : Nat) (d : Delivery)
    (n m : Notification) (result : ProviderResult) (t₁ t₂ : Time) (ids : EventIds),
    retryBackoffList raw = some env.retryBackoffList → (machine env).Reach Machine.Always s →
      s.workers w = .responded d n result → s.store.notifications.get n.id = some m →
      m.isFinal = false → step env s (.worker w (.apply t₁ t₂ ids)) = some s' →
      ResultRecorded s w n s' := by
  intro h
  obtain ⟨s, s', d, n, m, hreach, hw, -, -, hm, hopen, hstep, hs'⟩ :=
    exists_applied Sample.noBackoff Sample.temporaryError
      (fun s' => s'.workers 0 = .failing ⟨Sample.message, .high, true⟩) (by decide)
  obtain ⟨⟨_, hfinished⟩, -⟩ :=
    h Sample.noBackoff "" s s' 0 d n m _ 0 0 _ (by decide) hreach hw hm hopen hstep
  rw [decide_eq_true_eq] at hs'
  cases hs'.symm.trans hfinished

end NotificationSystem
