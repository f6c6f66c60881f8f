import NotificationSystem.Lib.History
import NotificationSystem.ReadCommitted
import NotificationSystem.Redelivery

/-!
# Duplicates do not multiply

Every duplicate delivery may write a retry event, whose message may be duplicated in turn. Yet a
deferral writes one only where no retry event covers the lock, and that event cannot be claimed
before the lock ends; and an attempt in flight ends once. So the retry events of a notification
are bounded by its attempts, as long as each query for them runs before the lock ends that its
reserve has found.

* `RetryLog` — the history of a notification's retry events: which attempt each of them is about.
* `duplicates_multiply` — a query that runs late lets a second deferral through.
* `QueriesInTime` — no query runs late.
* `duplicates_bounded` — then there is at most one deferral for each attempt, and at most one
  backoff retry for each but the last.
-/

namespace NotificationSystem

open Lib

variable {env : Deployment} {x x' : SplitState} {a : Action} {b : SplitAction} {id : Uuid}
  {cfg : Settings} {l l' : Lifecycle} {g : RetryLog}

/-- The attempts that the retry events of a notification are about: the attempt that holds the
lock, for a deferral, and the attempt that failed, for a backoff retry. -/
structure RetryLog where
  deferrals : List Nat := []
  backoffs : List Nat := []
  deriving DecidableEq, Repr

namespace Lifecycle

/-- The number of the notification's retry events. -/
def retries (l : Lifecycle) : Nat := l.events.countP (·.eventType = .retryScheduled)

/-- What the log notes of a step from `l` to `l'`. -/
def noteRetries (l : Lifecycle) (g : RetryLog) (b : SplitAction) (l' : Lifecycle) : RetryLog :=
  if l'.retries = l.retries then g
  else
    match b with
    | .whole (.worker _ (.reserve _ _ _ _)) | .add _ _ _ _ =>
      { g with deferrals := l.attempts :: g.deferrals }
    | .whole (.worker w (.apply _ _ _)) =>
      { g with backoffs := ((l.flights w).map (·.loaded.attempts)).toList ++ g.backoffs }
    | _ => g

end Lifecycle

/-- The system beside the log of one notification's retry events. -/
def retryMachine (env : Deployment) (id : Uuid) : Machine (SplitState × RetryLog) SplitAction :=
  (splitMachine env).withHistory {} fun g x b x' =>
    (x.system.lifecycle id).noteRetries g b (x'.system.lifecycle id)

/-- A reserve that defers queries the retry events while the lock that it has found still
lasts. -/
def QueriesInTime (x : SplitState) : SplitAction → Prop
  | .query w t => ∀ d k, x.deferring w = some (d, k) → k.row.hasActiveProcessingLock t = true
  | _ => True

/-! ## Attempts of sent rows -/

/-- A row whose status is `sent` has had an attempt. -/
def Lifecycle.Attempted (l : Lifecycle) : Prop :=
  ∀ n, l.row = some n → n.status = .sent → 0 < n.attempts

theorem attempted_step (hs : l.Sound) (hl : l.Attempted) (h : l.Step cfg a l') : l'.Attempted := by
  intro n hn hsent
  have hopen : n.isFinal = false := by simp [Notification.isFinal, hsent]
  cases h with
  | quiet _ hrow => exact hl n (hrow ▸ hn) hsent
  | create =>
    cases hn
    cases hsent
  | call | defer => exact hl n hn hsent
  | reserve =>
    cases hn
    exact Nat.succ_pos _
  | refuse =>
    cases hn
    cases hsent
  | deliver _ _ hf =>
    cases hn
    cases (isFinal_markedDelivered (hs.flights _ _ hf).1).symm.trans hopen
  | drop _ _ hf =>
    cases hn
    cases (isFinal_droppedByResult (hs.flights _ _ hf).1).symm.trans hopen
  | retry _ _ _ _ _ _ hrow =>
    cases hn
    simp only [Notification.writeBack, Notification.awaitingRetry, Notification.withError,
      writeColumn_same] at hsent ⊢
    exact hl _ hrow hsent

/-! ## What is noted of a step -/

theorem retries_asWritten (h : l'.events.map (·.asWritten) = l.events.map (·.asWritten)) :
    l'.retries = l.retries := countP_asWritten (fun _ => rfl) h

theorem retries_snoc {e : OutboxEvent} (h : l'.events = l.events ++ [e]) :
    l'.retries = l.retries + if e.eventType = .retryScheduled then 1 else 0 := by
  rw [Lifecycle.retries, h, List.countP_append, List.countP_singleton]
  simp [Lifecycle.retries]

theorem noteRetries_same (h : l'.retries = l.retries) : l.noteRetries g b l' = g := if_pos h

/-! ## The invariant -/

/-- The log counts the retry events, each for an attempt of its own. While an attempt has a
deferral, a retry event is due when its lock ends or later. -/
structure Lifecycle.RetriesLogged (cfg : Settings) (l : Lifecycle) (g : RetryLog) : Prop where
  total : l.retries = g.deferrals.length + g.backoffs.length
  deferrals : ∀ k ∈ g.deferrals, 0 < k ∧ k ≤ l.attempts
  nodup_deferrals : g.deferrals.Nodup
  backoffs : ∀ k ∈ g.backoffs, 0 < k ∧ k ≤ l.attempts ∧ (k : Int) < cfg.maxRetries
  nodup_backoffs : g.backoffs.Nodup
  pending : ∀ w f, l.flights w = some f → f.loaded.attempts ∉ g.backoffs
  covered : ∀ n lockUntil, l.row = some n → n.isFinal = false →
    n.processingLockUntil = some lockUntil → n.attempts ∈ g.deferrals →
      0 < l.retriesDue (lockUntil ≤ ·)

theorem retriesLogged_initial (now : Time) : (Lifecycle.initial now).RetriesLogged cfg {} where
  total := rfl
  deferrals _ h := by cases h
  nodup_deferrals := List.nodup_nil
  backoffs _ h := by cases h
  nodup_backoffs := List.nodup_nil
  pending _ _ h := by cases h
  covered _ _ h := by cases h

theorem pending_step {ks : List Nat} (hle : ∀ k ∈ ks, k ≤ l.attempts)
    (hks : ∀ w f, l.flights w = some f → f.loaded.attempts ∉ ks) (h : l.Step cfg a l') (w : Nat)
    (f : Flight) (hf : l'.flights w = some f) : f.loaded.attempts ∉ ks := by
  intro hmem
  rcases h.flight hf with ⟨f₀, hf₀, heq, -⟩ | ⟨n, lockUntil, hrow, hnew, -, -⟩
  · exact hks w f₀ hf₀ (heq ▸ hmem)
  · -- the attempt just reserved is above every other one
    have hbound := hle _ hmem
    rw [hnew] at hbound
    simp only [Notification.reserved, Lifecycle.attempts, hrow, Option.map_some,
      Option.getD_some] at hbound
    omega

theorem retriesLogged_same (hl : l.RetriesLogged cfg g) (h : l.Step cfg a l')
    (hsame : l'.retries = l.retries)
    (hcov : ∀ n lockUntil, l'.row = some n → n.isFinal = false →
      n.processingLockUntil = some lockUntil → n.attempts ∈ g.deferrals →
        0 < l'.retriesDue (lockUntil ≤ ·)) :
    l'.RetriesLogged cfg (l.noteRetries g (.whole a) l') := by
  rw [noteRetries_same hsame]
  have hle := h.attempts_le
  refine ⟨hsame.trans hl.total, fun k hk => ?_, hl.nodup_deferrals, fun k hk => ?_,
    hl.nodup_backoffs, pending_step (fun k hk => (hl.backoffs k hk).2.1) hl.pending h, hcov⟩
  · obtain ⟨hpos, hk⟩ := hl.deferrals k hk
    exact ⟨hpos, hk.trans hle⟩
  · obtain ⟨hpos, hk, hmax⟩ := hl.backoffs k hk
    exact ⟨hpos, hk.trans hle, hmax⟩

/-- A deferral is the first one of the attempt that holds the lock. -/
theorem retriesLogged_defer (hs : l.Sound) (ha : l.Attempted) (hl : l.RetriesLogged cfg g)
    {t₂ t₃ : Time} {ids : EventIds} {n : Notification} {payload : Payload}
    (hrow : l.row = some n) (hopen : n.isFinal = false) (hsent : n.status = .sent)
    (hnone : ∀ lockUntil, n.processingLockUntil = some lockUntil →
      l.retriesDue (lockUntil ≤ ·) = 0)
    (hl' : l' = { l with
      now := t₃
      events := l.events ++ [deferredEvent n payload t₂ t₃ ids] })
    (hb : l'.retries ≠ l.retries →
      l.noteRetries g b l' = { g with deferrals := l.attempts :: g.deferrals }) :
    l'.RetriesLogged cfg (l.noteRetries g b l') := by
  have hevents : l'.events = l.events ++ [deferredEvent n payload t₂ t₃ ids] := by rw [hl']
  have hmore : l'.retries = l.retries + 1 := retries_snoc hevents
  have hattempts : l.attempts = n.attempts := by simp [Lifecycle.attempts, hrow]
  have hsame : l'.attempts = l.attempts := by rw [hl']; rfl
  obtain ⟨lockUntil, hL⟩ := hs.sent n hrow hsent
  have hfirst : n.attempts ∉ g.deferrals := by
    intro hmem
    have hpos := hl.covered n lockUntil hrow hopen hL hmem
    have hzero := hnone lockUntil hL
    omega
  have hpos := ha n hrow hsent
  rw [hb (by omega), hattempts]
  refine ⟨?_, fun k hk => ?_, List.nodup_cons.2 ⟨hfirst, hl.nodup_deferrals⟩, fun k hk => ?_,
    hl.nodup_backoffs, fun w f hf => hl.pending w f (by rw [← hf, hl']),
    fun m lock hm _ hlock' _ => ?_⟩
  · show l'.retries = (n.attempts :: g.deferrals).length + g.backoffs.length
    rw [hmore, hl.total, List.length_cons]
    omega
  · rw [hsame, hattempts]
    rcases List.mem_cons.1 hk with rfl | hk
    · exact ⟨hpos, le_rfl⟩
    · exact hattempts ▸ hl.deferrals k hk
  · exact hsame ▸ hl.backoffs k hk
  · rw [hl'] at hm
    cases hrow.symm.trans hm
    exact retriesDue_pos hevents (retryDue_iff.2 ⟨rfl, lock, hlock', by simp⟩)

/-- A backoff retry has moved the lock to its own due time, or left it where it was. -/
theorem covered_retry (hl : l.RetriesLogged cfg g) {loaded m : Notification}
    {result : ProviderResult} {lockUntil now : Time} {payload : Payload} {delay : Int}
    {error : Option String} {ids : EventIds} (hrow : l.row = some m)
    (hrow' : l'.row =
      some (Notification.writeBack loaded (loaded.awaitingRetry result lockUntil) m))
    (hevents : l'.events = l.events ++ [retryEvent (loaded.awaitingRetry result lockUntil) payload
      delay (some lockUntil) error none now ids]) (n : Notification) (lock : Time)
    (hn : l'.row = some n) (hopen : n.isFinal = false) (hlock : n.processingLockUntil = some lock)
    (hk : n.attempts ∈ g.deferrals) : 0 < l'.retriesDue (lock ≤ ·) := by
  cases hrow'.symm.trans hn
  rw [isFinal_awaitingRetry] at hopen
  by_cases hwritten : lock = lockUntil
  · exact retriesDue_pos hevents (retryDue_iff.2 ⟨rfl, lockUntil, rfl, by simp [hwritten]⟩)
  · have hold : m.processingLockUntil = some lock := by
      have hcolumn : writeColumn loaded.processingLockUntil (some lockUntil)
          m.processingLockUntil = some lock := hlock
      unfold writeColumn at hcolumn
      split at hcolumn
      · exact hcolumn
      · exact absurd (Option.some.inj hcolumn.symm) hwritten
    have hdue := hl.covered m lock hrow hopen hold (by simpa [Notification.writeBack,
      Notification.awaitingRetry, Notification.withError] using hk)
    rw [retriesDue_snoc hevents]
    omega

/-- A backoff retry is the only one of its attempt. -/
theorem retriesLogged_retry {s : Lifecycle} (hc : s.Counted cfg) (hl : s.RetriesLogged cfg g)
    {w : Nat} {t₁ t₂ lockUntil : Time} {delay : Int} {ids : EventIds} {f : Flight}
    {result : ProviderResult} {m : Notification} (hf : s.flights w = some f)
    (hretry : retryUntil cfg f.loaded.attempts result t₁ = .ok (some (delay, lockUntil)))
    (hrow : s.row = some m)
    (hl' : l' = { s with
      now := t₂
      row := some (Notification.writeBack f.loaded (f.loaded.awaitingRetry result lockUntil) m)
      events := s.events ++ [retryEvent (f.loaded.awaitingRetry result lockUntil) f.payload delay
        (some lockUntil) result.errorMessage none t₂ ids]
      flights := Function.update s.flights w none }) :
    l'.RetriesLogged cfg (s.noteRetries g (.whole (.worker w (.apply t₁ t₂ ids))) l') := by
  have hevents : l'.events = s.events ++ [retryEvent (f.loaded.awaitingRetry result lockUntil)
      f.payload delay (some lockUntil) result.errorMessage none t₂ ids] := by
    rw [hl']
  have hmore : l'.retries = s.retries + 1 := retries_snoc hevents
  have hsame : l'.attempts = s.attempts := by
    rw [hl']
    simp [Lifecycle.attempts, hrow, Notification.writeBack, Notification.awaitingRetry,
      Notification.withError]
  have hnote : s.noteRetries g (.whole (.worker w (.apply t₁ t₂ ids))) l' =
      { g with backoffs := f.loaded.attempts :: g.backoffs } := by
    rw [Lifecycle.noteRetries, if_neg (by omega), hf]
    rfl
  have hcovered := covered_retry hl hrow (by rw [hl']) hevents
  rw [hnote]
  refine ⟨?_, fun k hk => hsame ▸ hl.deferrals k hk, hl.nodup_deferrals, fun k hk => ?_,
    List.nodup_cons.2 ⟨hl.pending w f hf, hl.nodup_backoffs⟩, fun v f' hf' => ?_, hcovered⟩
  · show l'.retries = g.deferrals.length + (f.loaded.attempts :: g.backoffs).length
    rw [hmore, hl.total, List.length_cons]
    omega
  · rw [hsame]
    rcases List.mem_cons.1 hk with rfl | hk
    · obtain ⟨hpos, hle⟩ := hc.flights w f hf
      exact ⟨hpos, hle, lt_maxRetries_of_retryUntil hretry⟩
    · exact hl.backoffs k hk
  · rw [hl'] at hf'
    obtain ⟨hne, hv⟩ := of_update_none hf'
    refine List.not_mem_cons_of_ne_of_not_mem (fun heq => hne ?_) (hl.pending v f' hv)
    exact hc.distinct v w f' f hv hf heq

theorem retriesLogged_step {s : State} (ht : Traced s) (hs : (s.lifecycle id).Sound)
    (hc : (s.lifecycle id).Counted cfg) (ha : (s.lifecycle id).Attempted)
    (hl : (s.lifecycle id).RetriesLogged cfg g) (h : (s.lifecycle id).Step cfg a l') :
    l'.RetriesLogged cfg ((s.lifecycle id).noteRetries g (.whole a) l') := by
  have hstep := h
  cases h with
  | quiet _ hrow _ he =>
    refine retriesLogged_same hl hstep (retries_asWritten he)
      fun n lockUntil hn hopen hlock hk => ?_
    rw [retriesDue_asWritten he]
    exact hl.covered n lockUntil (hrow ▸ hn) hopen hlock hk
  | create _ _ hev =>
    refine retriesLogged_same hl hstep ?_ fun n lockUntil hn _ hlock _ => ?_
    · simp [Lifecycle.retries, hev, createdEvent]
    · cases hn
      cases hlock
  | call => exact retriesLogged_same hl hstep rfl hl.covered
  | reserve _ _ _ hrow =>
    refine retriesLogged_same hl hstep rfl fun n lockUntil hn _ _ hk => ?_
    cases hn
    -- no deferral is about the attempt just reserved
    have hle := (hl.deferrals _ hk).2
    simp only [Notification.reserved, Lifecycle.attempts, hrow, Option.map_some,
      Option.getD_some] at hle
    omega
  | defer h₁ _ _ hrow hopen hlock hcov =>
    refine retriesLogged_defer hs ha hl hrow hopen ?_ (fun lockUntil hL => ?_) rfl
      fun hne => if_neg hne
    · simp only [Notification.hasActiveProcessingLock, Bool.and_eq_true, decide_eq_true_eq] at hlock
      exact hlock.1
    · exact no_retry_beyond ht (Table.get_key hrow) h₁ hlock hL hcov
  | refuse =>
    refine retriesLogged_same hl hstep (by simp [Lifecycle.retries, failedEvent])
      fun n lockUntil hn hopen => ?_
    cases hn
    cases isFinal_droppedBeforeProvider.symm.trans hopen
  | deliver _ _ hf =>
    refine retriesLogged_same hl hstep rfl fun n lockUntil hn hopen => ?_
    cases hn
    cases (isFinal_markedDelivered (hs.flights _ _ hf).1).symm.trans hopen
  | drop _ _ hf =>
    refine retriesLogged_same hl hstep (by simp [Lifecycle.retries, failedEvent])
      fun n lockUntil hn hopen => ?_
    cases hn
    cases (isFinal_droppedByResult (hs.flights _ _ hf).1).symm.trans hopen
  | retry _ _ hf _ _ hretry hrow => exact retriesLogged_retry hc hl hf hretry hrow rfl

/-! ## Queries in time -/

/-- Where a reserve has found no retry event that covers the lock, there is none. -/
def Uncovered (x : SplitState) : Prop :=
  ∀ id k, x.rowLocks id = some k → k.uncovered = true →
    ∀ lockUntil, k.row.processingLockUntil = some lockUntil →
      (x.system.lifecycle id).retriesDue (lockUntil ≤ ·) = 0

/-- A query in time finds every event that covers the lock. -/
theorem uncovered_query (hs : Coherent env x.system) {w : Nat} {t lockUntil : Time}
    {d : Delivery} {n : Notification} (hd : x.deferring w = some (d, ⟨w, n, false⟩))
    (hnow : x.system.now ≤ t) (hnone : deferredRedeliveries x.system.store n = [])
    (hok : QueriesInTime x (.query w t)) (hL : n.processingLockUntil = some lockUntil) :
    (x.system.lifecycle n.id).retriesDue (lockUntil ≤ ·) = 0 := by
  refine no_retry_beyond hs.traced rfl hnow (hok d _ hd) hL fun e he => ?_
  simpa using List.filter_eq_nil_iff.1 hnone e (List.mem_of_mem_filter he)

theorem uncovered_step (hs : Coherent env x.system) (hx : RowsHeld x) (hu : Uncovered x)
    (hok : QueriesInTime x b) (h : SplitChange env x b x') : Uncovered x' := by
  intro id k hk hunc lockUntil hL
  cases h with
  | @whole a s' hfree hstep =>
    have hold := rowLocksAfter_some hk
    obtain ⟨hget, -⟩ := hx id k hold
    have hsame := (unlocked_quiet hs.referenced ⟨_, hget⟩ (fun hid => ?_) hstep).2
    · rw [retriesDue_asWritten hsame]
      exact hu id k hold hunc lockUntil hL
    · cases (hfree id hid).symm.trans hold
  | test =>
    rcases of_update_lock hk with ⟨rfl, heq⟩ | ⟨-, hk⟩
    · cases heq
      cases hunc
    · exact hu id k hk hunc lockUntil hL
  | query hd hnow hnone =>
    rcases of_update_lock hk with ⟨rfl, heq⟩ | ⟨-, hk⟩
    · cases heq
      exact uncovered_query hs hd hnow hnone hok hL
    · exact hu id k hk hunc lockUntil hL
  | finish _ hd _ hresult =>
    obtain ⟨hw, -⟩ := deferring_eq_some.1 hd
    rcases of_update_lock hk with ⟨-, heq⟩ | ⟨-, hk⟩
    · cases heq
    · rw [SplitState.endReserve, (ended_afterReserve hresult).lifecycle hw rfl rfl]
      exact hu id k hk hunc lockUntil hL
  | @add w t₂ t₃ ids d n outbox hd _ _ hins =>
    obtain ⟨hw, -⟩ := deferring_eq_some.1 hd
    rcases of_update_lock hk with ⟨-, heq⟩ | ⟨hid, hk⟩
    · cases heq
    · have hend : Ended x.system w d t₃ { x.system.store with outbox }
          (afterReserve x.system w d t₃ (.ok ({ x.system.store with outbox }, none))) := ended_added
      have hother : n.id ≠ id := (hx.row hd).2.trans_ne (Ne.symm hid)
      rw [SplitState.endReserve, hend.lifecycle hw rfl rfl,
        show Store.eventsOf _ id = _ from filter_insert?_ne hins hother]
      exact hu id k hk hunc lockUntil hL

/-! ## Every step -/

theorem attempted_splitStep (hs : (x.system.lifecycle id).Sound)
    (ha : (x.system.lifecycle id).Attempted)
    (h : SplitLifecycle cfg x id b l') : l'.Attempted := by
  cases h with
  | whole hstep => exact attempted_step hs ha hstep
  | wait | add => exact ha

theorem retriesLogged_splitStep (hs : Coherent env x.system) (hx : RowsHeld x) (hu : Uncovered x)
    (ha : (x.system.lifecycle id).Attempted)
    (hl : (x.system.lifecycle id).RetriesLogged env.toSettings g)
    (h : SplitLifecycle env.toSettings x id b l') :
    l'.RetriesLogged env.toSettings ((x.system.lifecycle id).noteRetries g b l') := by
  cases h with
  | whole hstep => exact retriesLogged_step hs.traced (hs.sound id) (hs.counted id) ha hl hstep
  | @wait _ t =>
    have hsame :
        (x.system.lifecycle id).noteRetries g b { x.system.lifecycle id with now := t } = g :=
      if_pos rfl
    rw [hsame]
    exact ⟨hl.total, hl.deferrals, hl.nodup_deferrals, hl.backoffs, hl.nodup_backoffs, hl.pending,
      hl.covered⟩
  | add hd hid =>
    subst hid
    obtain ⟨hget, hid⟩ := hx.row hd
    have hlock := (deferring_eq_some.1 hd).2.1
    obtain ⟨-, hopen, hsent⟩ := hx _ _ hlock
    refine retriesLogged_defer (hs.sound _) ha hl hget hopen hsent (fun lockUntil hL => ?_) rfl
      fun hne => if_neg hne
    exact hu _ _ (hid ▸ hlock) rfl lockUntil hL

theorem retriesLogged_reach {y : SplitState × RetryLog}
    (h : (retryMachine env id).Reach (fun y b => QueriesInTime y.1 b) y) :
    (y.1.system.lifecycle id).RetriesLogged env.toSettings y.2 := by
  have hall : Uncovered y.1 ∧ (y.1.system.lifecycle id).Attempted ∧
      (y.1.system.lifecycle id).RetriesLogged env.toSettings y.2 := by
    refine Machine.Reach.induct_history (I := fun y => Uncovered y.1 ∧
      (y.1.system.lifecycle id).Attempted ∧
        (y.1.system.lifecycle id).RetriesLogged env.toSettings y.2) ?_
      (fun x g b t hreach hy hok hstep => ?_) h
    · rintro ⟨_, _⟩ ⟨⟨now, rfl⟩, rfl⟩
      refine ⟨fun _ _ h => ?_, fun _ h => ?_, retriesLogged_initial now⟩ <;> cases h
    · obtain ⟨hs, hx⟩ := coherent_reach hreach
      obtain ⟨hu, ha, hl⟩ := hy
      have hchange := splitChange_of_step hstep
      have hlife : SplitLifecycle env.toSettings x id b (t.system.lifecycle id) :=
        splitLifecycle_of_step hs hchange
      exact ⟨uncovered_step hs hx hu hok hchange, attempted_splitStep (hs.sound id) ha hlife,
        retriesLogged_splitStep hs hx hu ha hl hlife⟩
  exact hall.2.2

/-! ## The theorem -/

/-- **Duplicates do not multiply** in a run whose deferring reserves query in time. The retry
events ever written for a notification are its deferrals, of which each successful reserve has at
most one, and its backoff retries, of which there are at most `max_retries - 1`. -/
theorem duplicates_bounded {y : SplitState × RetryLog}
    (h : (retryMachine env id).Reach (fun y b => QueriesInTime y.1 b) y) :
    (y.1.system.store.eventsOf id).countP (·.eventType = .retryScheduled) =
        y.2.deferrals.length + y.2.backoffs.length ∧
      (y.2.deferrals.Nodup ∧ ∀ k ∈ y.2.deferrals, 0 < k ∧
        k ≤ (y.1.system.store.historyOf id).countP (·.status = .sent)) ∧
      (y.2.backoffs.length : Int) ≤ max 0 (env.maxRetries - 1) ∧
      ((y.1.system.store.eventsOf id).countP (·.eventType = .retryScheduled) : Int) ≤
        max 0 (2 * env.maxRetries - 1) := by
  have hreach : (splitMachine env).Reach Machine.Always y.1 := h.forget fun _ _ _ => trivial
  have hc := (coherent_reach hreach).1.counted id
  have hl := retriesLogged_reach h
  have htotal : (y.1.system.store.eventsOf id).countP (·.eventType = .retryScheduled) =
      y.2.deferrals.length + y.2.backoffs.length := hl.total
  have hdeferrals := length_le_of_nodup hl.nodup_deferrals hl.deferrals
  have hbackoffs : y.2.backoffs.length ≤ (max 0 (env.maxRetries - 1)).toNat := by
    refine length_le_of_nodup hl.nodup_backoffs fun k hk => ?_
    obtain ⟨hpos, -, hmax⟩ := hl.backoffs k hk
    exact ⟨hpos, by omega⟩
  have hbound := hc.bound
  refine ⟨htotal, ⟨hl.nodup_deferrals, fun k hk => ?_⟩, by omega, ?_⟩
  · obtain ⟨hpos, hle⟩ := hl.deferrals k hk
    exact ⟨hpos, hle.trans hc.sent.ge⟩
  · rw [htotal]
    omega

/-- The sample's message is delivered again while its first attempt runs. -/
def Sample.redelivery : List Action :=
  Sample.attempt ++
    [.worker 0 .send, .worker 0 (.disconnect false), .worker 1 (.get .high Sample.message)]

/-- The second delivery is deferred, and then the attempt fails: one deferral and one backoff
retry. -/
def Sample.duplicates : List SplitAction :=
  Sample.redelivery.map .whole ++
    [.test 1 (Sample.sec 1), .query 1 (Sample.sec 1), .add 1 (Sample.sec 1) (Sample.sec 1) ⟨6, 7⟩,
      .whole (.worker 0 (.answer Sample.temporaryError)),
      .whole (.worker 0 (.apply (Sample.sec 2) (Sample.sec 2) ⟨8, 9⟩))]

/-- The test that stands for `QueriesInTime`. -/
def queriesInTime (x : SplitState) : SplitAction → Bool
  | .query w t => (x.deferring w).all fun p => p.2.row.hasActiveProcessingLock t
  | _ => true

theorem queriesInTime_of_test (h : queriesInTime x b = true) : QueriesInTime x b := by
  cases b with
  | query w t =>
    intro d k hk
    simpa [queriesInTime, hk] using h
  | whole | test | add => trivial

theorem duplicates_bounded_twice : ∃ y : SplitState × RetryLog, y.2 = ⟨[1], [1]⟩ ∧
    (y.1.system.store.eventsOf 1).countP (·.eventType = .retryScheduled) =
        y.2.deferrals.length + y.2.backoffs.length ∧
      (y.2.deferrals.Nodup ∧ ∀ k ∈ y.2.deferrals, 0 < k ∧
        k ≤ (y.1.system.store.historyOf 1).countP (·.status = .sent)) ∧
      (y.2.backoffs.length : Int) ≤ max 0 (Sample.env.maxRetries - 1) ∧
      ((y.1.system.store.eventsOf 1).countP (·.eventType = .retryScheduled) : Int) ≤
        max 0 (2 * Sample.env.maxRetries - 1) := by
  obtain ⟨y, hrun, hy⟩ := Machine.Run.exists_of_execChecked (retryMachine Sample.env 1)
    (fun y b => QueriesInTime y.1 b) (fun y b => queriesInTime y.1 b)
    (⟨.initial 0, fun _ => none⟩, {}) Sample.duplicates (fun y => y.2 = ⟨[1], [1]⟩)
    (fun _ _ h => queriesInTime_of_test h) (by decide)
  exact ⟨y, by simpa using hy, duplicates_bounded (.run (.init ⟨⟨⟨0, rfl⟩, rfl⟩, rfl⟩) hrun)⟩

/-! ## Queries that run late -/

/-- The event of the deferral is published when the lock ends. -/
def Sample.deferralPublished : List Action :=
  [.publisher 0 .done, .publisher 0 (.claim (Sample.sec 60) (Sample.sec 60) (Sample.sec 60) []),
    .publisher 0 .load, .publisher 0 .publish, .publisher 0 (.record (Sample.sec 60))]

/-- The second delivery is deferred and comes back once more. This reserve, too, finds the lock
active; it queries the retry events after the one of the deferral has been published. -/
def Sample.lateQuery : List SplitAction :=
  Sample.redelivery.map .whole ++
    [.test 1 (Sample.sec 1), .query 1 (Sample.sec 1), .add 1 (Sample.sec 1) (Sample.sec 1) ⟨6, 7⟩,
      .whole (.worker 1 (.disconnect false)), .whole (.worker 2 (.get .high Sample.message)),
      .test 2 (Sample.sec 59)] ++
    Sample.deferralPublished.map .whole ++
    [.query 2 (Sample.sec 61), .add 2 (Sample.sec 61) (Sample.sec 61) ⟨8, 9⟩]

/-- **Duplicates multiply**: one attempt, and two deferrals of it. -/
theorem duplicates_multiply : ¬ ∀ (env : Deployment) (id : Uuid) (y : SplitState × RetryLog),
    (retryMachine env id).Reach Machine.Always y →
      ((y.1.system.store.eventsOf id).countP (·.eventType = .retryScheduled) : Int) ≤
        max 0 (2 * env.maxRetries - 1) := by
  intro h
  obtain ⟨y, hrun, hy⟩ := Machine.Run.exists_of_exec_always (retryMachine Sample.oneAttempt 1)
    (⟨.initial 0, fun _ => none⟩, {}) Sample.lateQuery
    (fun y => (y.1.system.store.eventsOf 1).countP (·.eventType = .retryScheduled) = 2) (by decide)
  rw [decide_eq_true_eq] at hy
  have hle := h Sample.oneAttempt 1 y (.run (.init ⟨⟨⟨0, rfl⟩, rfl⟩, rfl⟩) hrun)
  rw [hy] at hle
  exact absurd hle (by decide)

end NotificationSystem
