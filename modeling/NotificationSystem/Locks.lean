import NotificationSystem.Requests

/-!
# Redis locks

`create_bulk` takes the lock of its key with `SET NX`, and gives it back in two steps: a `GET`, and
a `DELETE` if the value was its own token. Between the two the lock may expire and be set by
another request.

* `LockChange`, `lockChange_of_step` — what a step does to the requests' phases and to Redis.
* `TokensHeld` — a stored token is that of a request that has not ended, in every run.
* `foreign_lock_deleted` — a request deletes the lock of another.
* `locks_owned` — it does not as long as no request sets a lock that another is about to delete.
-/

namespace NotificationSystem

open Lib

variable {env : Deployment} {s s' : State} {a : Action}

/-! ## The steps -/

/-- What a step does to the requests' phases and to Redis. -/
inductive LockChange (s : State) : Action → State → Prop
  | quiet {a : Action} {s' : State} : s'.requests = s.requests → s'.redis = s.redis →
      LockChange s a s'
  | expired {key : String} {s' : State} : s'.requests = s.requests →
      s'.redis = Function.update s.redis key none → LockChange s (.redisExpire key) s'
  | acquired {q : Nat} {body : BulkNotificationRequest} {key : String} {s' : State} :
      s.requests q = none → s.redis key = none →
      s'.requests = Function.update s.requests q (some ⟨body, key, .locked⟩) →
      s'.redis = Function.update s.redis key (some q) →
      LockChange s (.request q (.submit body key)) s'
  | refused {q : Nat} {body : BulkNotificationRequest} {key : String} {s' : State} :
      s.requests q = none → s.redis key ≠ none →
      s'.requests = Function.update s.requests q (some ⟨body, key, .done .inProgress⟩) →
      s'.redis = s.redis → LockChange s (.request q (.submit body key)) s'
  | working {q : Nat} {r : Request} {phase : RequestPhase} {a : RequestAction} {s' : State} :
      s.requests q = some r → (∀ o, phase ≠ .deleting o ∧ phase ≠ .done o) →
      s'.requests = Function.update s.requests q (some { r with phase }) →
      s'.redis = s.redis → LockChange s (.request q a) s'
  | own {q : Nat} {r : Request} {o : Outcome} {s' : State} :
      s.requests q = some r → s.redis r.key = some q →
      s'.requests = Function.update s.requests q (some { r with phase := .deleting o }) →
      s'.redis = s.redis → LockChange s (.request q .getLock) s'
  | lost {q : Nat} {r : Request} {o : Outcome} {s' : State} :
      s.requests q = some r → s.redis r.key ≠ some q →
      s'.requests = Function.update s.requests q (some { r with phase := .done o }) →
      s'.redis = s.redis → LockChange s (.request q .getLock) s'
  | deleted {q : Nat} {r : Request} {o : Outcome} {s' : State} :
      s.requests q = some r → r.phase = .deleting o →
      s'.requests = Function.update s.requests q (some { r with phase := .done o }) →
      s'.redis = Function.update s.redis r.key none → LockChange s (.request q .deleteLock) s'
  | crashed {q : Nat} {r : Request} {s' : State} : s.requests q = some r →
      s'.requests = Function.update s.requests q (some { r with phase := .done .crashed }) →
      s'.redis = s.redis → LockChange s (.request q .crash) s'

theorem afterRead_working (result : Except NotReserved Reservation) (o : Outcome) :
    afterRead result ≠ .deleting o ∧ afterRead result ≠ .done o := by
  rcases result with (_ | _ | _) | _ <;> simp [afterRead]

theorem afterFind_working (requestHash : String) (record : Option IdempotencyKey) (o : Outcome) :
    afterFind requestHash record ≠ .deleting o ∧ afterFind requestHash record ≠ .done o := by
  unfold afterFind
  split
  · simp
  · split
    · simp
    · split <;> simp

theorem lockChange_of_request {q : Nat} {a : RequestAction}
    (h : requestStep env s q a = some s') : LockChange s (.request q a) s' := by
  cases requestStep_inv h with
  | submit hq hfree => exact .acquired hq hfree rfl rfl
  | refuse hq hheld => exact .refused hq hheld rfl rfl
  | read hq => exact .working hq (afterRead_working _) rfl rfl
  | commit hq | abort hq => exact .working hq (by simp) rfl rfl
  | @rollBack r reservation ids stamps e hq =>
    refine .working hq (fun o => ?_) rfl rfl
    split <;> simp
  | find hq => exact .working hq (afterFind_working _ _) rfl rfl
  | own hq _ hown => exact .own hq hown rfl rfl
  | lost hq _ hlost => exact .lost hq hlost rfl rfl
  | deleteLock hq hphase => exact .deleted hq hphase rfl rfl
  | crash hq => exact .crashed hq rfl rfl

theorem lockChange_of_step (h : step env s a = some s') : LockChange s a s' := by
  cases a with
  | tick t =>
    simp only [step] at h
    split at h
    · cases h
      exact .quiet rfl rfl
    · cases h
  | worker w a =>
    have hframe := workerStep_frame h
    exact .quiet hframe.requests hframe.redis
  | publisher p a =>
    have hframe := publisherStep_frame h
    exact .quiet hframe.requests hframe.redis
  | request q a => exact lockChange_of_request h
  | cleaner c a =>
    obtain ⟨-, hrequests, hredis⟩ := cleanerStep_frame h
    exact .quiet hrequests hredis
  | redisExpire key =>
    cases h
    exact .expired rfl rfl

theorem LockChange.token (h : LockChange s a s') {key : String} {q : Nat}
    (hq : s'.redis key = some q) : s.redis key = some q ∨
      s.redis key = none ∧ s.requests q = none ∧
        ∃ body, a = .request q (.submit body key) ∧ s'.requests q = some ⟨body, key, .locked⟩ := by
  cases h with
  | quiet _ hredis | refused _ _ _ hredis | working _ _ _ hredis | own _ _ _ hredis
  | lost _ _ _ hredis | crashed _ _ hredis => exact .inl (hredis ▸ hq)
  | expired _ hredis | deleted _ _ _ hredis =>
    rw [hredis, Function.update_apply] at hq
    split at hq
    · cases hq
    · exact .inl hq
  | @acquired p body key' _ hnone hfree hrequests hredis =>
    rw [hredis, Function.update_apply] at hq
    split at hq
    · next hkey =>
      cases hq
      subst hkey
      exact .inr ⟨hfree, hnone, body, rfl, by rw [hrequests, Function.update_self]⟩
    · exact .inl hq

/-! ## The invariants -/

/-- A request that has neither returned nor raised. -/
def RequestPhase.Open (phase : RequestPhase) : Prop := ∀ o, phase = .done o → o = .crashed

/-- A stored token is that of a request for the key which has not ended, unless by a crash. -/
def TokensHeld (s : State) : Prop :=
  ∀ key q, s.redis key = some q → ∃ r, s.requests q = some r ∧ r.key = key ∧ r.phase.Open

theorem tokensHeld_step (hs : TokensHeld s) (h : LockChange s a s') : TokensHeld s' := by
  intro key q hq
  rcases h.token hq with hold | ⟨-, -, body, -, hnew⟩
  · obtain ⟨r, hr, hkey, hopen⟩ := hs key q hold
    cases h with
    | quiet hrequests | expired hrequests => exact ⟨r, hrequests ▸ hr, hkey, hopen⟩
    | @acquired p _ _ _ hp _ hrequests | @refused p _ _ _ hp _ hrequests =>
      refine ⟨r, ?_, hkey, hopen⟩
      rw [hrequests, Function.update_of_ne, hr]
      rintro rfl
      cases hp.symm.trans hr
    | @working p r' phase _ _ hp hphase hrequests =>
      by_cases hqp : q = p
      · subst hqp
        cases hp.symm.trans hr
        have hself := congrFun hrequests q
        rw [Function.update_self] at hself
        exact ⟨_, hself, hkey, fun o ho => absurd ho (hphase o).2⟩
      · exact ⟨r, by rw [hrequests, Function.update_of_ne hqp, hr], hkey, hopen⟩
    | @own p _ _ _ hp _ hrequests | @crashed p _ _ hp hrequests =>
      by_cases hqp : q = p
      · subst hqp
        cases hp.symm.trans hr
        have hself := congrFun hrequests q
        rw [Function.update_self] at hself
        exact ⟨_, hself, hkey, by simp [RequestPhase.Open]⟩
      · exact ⟨r, by rw [hrequests, Function.update_of_ne hqp, hr], hkey, hopen⟩
    | @lost p _ _ _ hp hlost hrequests =>
      refine ⟨r, ?_, hkey, hopen⟩
      rw [hrequests, Function.update_of_ne, hr]
      -- the request that finds another token is not the one whose token is stored
      rintro rfl
      cases hp.symm.trans hr
      exact hlost (hkey ▸ hold)
    | @deleted p _ _ _ hp _ hrequests hredis =>
      refine ⟨r, ?_, hkey, hopen⟩
      rw [hrequests, Function.update_of_ne, hr]
      rintro rfl
      cases hp.symm.trans hr
      rw [hredis, hkey, Function.update_self] at hq
      cases hq
  · exact ⟨_, hnew, rfl, by simp [RequestPhase.Open]⟩

theorem tokensHeld_reach {ok : State → Action → Prop} (h : (machine env).Reach ok s) :
    TokensHeld s := by
  refine Machine.Reach.induct ?_ (fun t a t' _ ht _ hstep => ?_) h
  · rintro _ ⟨now, rfl⟩ key q hq
    cases hq
  · exact tokensHeld_step ht (lockChange_of_step hstep)

/-- A request that is about to delete the lock would delete no other request's. -/
def OwnLocks (s : State) : Prop :=
  ∀ q r o, s.requests q = some r → r.phase = .deleting o →
    ∀ p, s.redis r.key = some p → p = q

/-- No request sets a lock that another, which has read its own token, is about to delete. -/
def AcquiresAlone (s : State) : Action → Prop
  | .request _ (.submit _ key) => s.redis key = none →
    ∀ q r o, s.requests q = some r → r.phase = .deleting o → r.key ≠ key
  | _ => True

/-- A request that is about to delete has read its own token in this step, or before it. -/
theorem LockChange.deleting (h : LockChange s a s') {q : Nat} {r : Request} {o : Outcome}
    (hq : s'.requests q = some r) (hphase : r.phase = .deleting o) :
    s.requests q = some r ∨ s'.redis r.key = some q := by
  have other {p : Nat} {x : Request} (hx : ∀ o, x.phase ≠ .deleting o)
      (hrequests : s'.requests = Function.update s.requests p (some x)) :
      s.requests q = some r := by
    rw [hrequests, Function.update_apply] at hq
    split at hq
    · cases hq
      exact absurd hphase (hx o)
    · exact hq
  cases h with
  | quiet hrequests | expired hrequests => exact .inl (hrequests ▸ hq)
  | acquired _ _ hrequests | refused _ _ hrequests | lost _ _ hrequests | deleted _ _ hrequests
  | crashed _ hrequests => exact .inl (other (by simp) hrequests)
  | working _ hworking hrequests => exact .inl (other (fun o => (hworking o).1) hrequests)
  | own _ hown hrequests hredis =>
    rw [hrequests, Function.update_apply] at hq
    split at hq
    · next heq =>
      cases hq
      right
      rw [hredis, heq]
      exact hown
    · exact .inl hq

theorem ownLocks_step (hs : OwnLocks s) (hok : AcquiresAlone s a) (h : LockChange s a s') :
    OwnLocks s' := by
  intro q r o hq hphase p hp
  rcases h.deleting hq hphase with hold | hown
  · rcases h.token hp with hstored | ⟨hfree, -, body, rfl, -⟩
    · exact hs q r o hold hphase p hstored
    · exact absurd rfl (hok hfree q r o hold hphase)
  · exact Option.some.inj (hp.symm.trans hown)

theorem ownLocks_reach (h : (machine env).Reach AcquiresAlone s) : OwnLocks s := by
  refine Machine.Reach.induct ?_ (fun t a t' _ ht hok hstep => ?_) h
  · rintro _ ⟨now, rfl⟩ q r o hq
    cases hq
  · exact ownLocks_step ht hok (lockChange_of_step hstep)

/-! ## The theorem -/

/-- No `DELETE` that a request may issue now removes another request's lock. -/
def DeletesOwn (env : Deployment) (s : State) : Prop :=
  ∀ q s', step env s (.request q .deleteLock) = some s' →
    ∀ key p, p ≠ q → s.redis key = some p → s'.redis key = some p

/-- A request only ever releases its own lock, and the lock that is in place keeps every other
request out until it expires or its owner deletes it. -/
structure LocksOwned (env : Deployment) (ok : State → Action → Prop) (s : State) : Prop where
  deletes : DeletesOwn env s
  excludes : ∀ q key as s', s.redis key = some q → (machine env).Run ok s as s' →
    .redisExpire key ∉ as → .request q .deleteLock ∉ as →
    s'.redis key = some q ∧
      ∀ p body s'', step env s' (.request p (.submit body key)) = some s'' →
        s''.requests p = some ⟨body, key, .done .inProgress⟩ ∧ s''.redis key = some q
  ended : ∀ q r o, s.requests q = some r → r.phase = .done o → o ≠ .crashed →
    ∀ key, s.redis key ≠ some q

/-- A request may delete exactly when it has read its own token. -/
theorem deleteLock_step {q : Nat} :
    step env s (.request q .deleteLock) = some s' ↔ ∃ r o, s.requests q = some r ∧
      r.phase = .deleting o ∧
      s' = { s.setRequest q { r with phase := .done o } with
        redis := Function.update s.redis r.key none } := by
  constructor
  · intro h
    simp only [step, requestStep] at h
    split at h
    · next r hq =>
      simp only [activeRequestStep] at h
      split at h
      · next o hphase =>
        cases h
        exact ⟨r, o, hq, hphase, rfl⟩
      · cases h
    · cases h
  · rintro ⟨r, o, hq, hphase, rfl⟩
    simp [step, requestStep, hq, activeRequestStep, hphase]

theorem deletesOwn_iff : DeletesOwn env s ↔ OwnLocks s := by
  constructor
  · intro h q r o hq hphase p hp
    by_contra hne
    have hkept := h q _ (deleteLock_step.2 ⟨r, o, hq, hphase, rfl⟩) r.key p hne hp
    simp at hkept
  · intro h q s' hstep key p hne hp
    obtain ⟨r, o, hq, hphase, rfl⟩ := deleteLock_step.1 hstep
    by_cases hkey : key = r.key
    · exact absurd (h q r o hq hphase p (hkey ▸ hp)) hne
    · simpa [hkey] using hp

/-- A lock stays in place through a step that neither lets it expire nor is its owner's delete. -/
theorem lock_stays (hs : OwnLocks s) (h : step env s a = some s') {key : String} {q : Nat}
    (hq : s.redis key = some q) (hexpire : .redisExpire key ≠ a)
    (hdelete : .request q .deleteLock ≠ a) : s'.redis key = some q := by
  cases lockChange_of_step h with
  | quiet _ hredis | refused _ _ _ hredis | working _ _ _ hredis | own _ _ _ hredis
  | lost _ _ _ hredis | crashed _ _ hredis => rw [hredis, hq]
  | @expired key' _ _ hredis =>
    rw [hredis, Function.update_of_ne, hq]
    rintro rfl
    exact hexpire rfl
  | @acquired p body key' _ _ hfree _ hredis =>
    rw [hredis, Function.update_of_ne, hq]
    rintro rfl
    cases hfree.symm.trans hq
  | @deleted p r o _ hp hphase _ hredis =>
    rw [hredis, Function.update_of_ne, hq]
    rintro rfl
    cases hs p r o hp hphase q hq
    exact hdelete rfl

theorem submit_refused {p q : Nat} {body : BulkNotificationRequest} {key : String}
    (hq : s.redis key = some q) (h : step env s (.request p (.submit body key)) = some s') :
    s'.requests p = some ⟨body, key, .done .inProgress⟩ ∧ s'.redis key = some q := by
  simp only [step, requestStep] at h
  split at h
  · cases h
  · rw [hq] at h
    cases h
    exact ⟨setRequest_self, hq⟩

theorem locksOwned_reach (h : (machine env).Reach AcquiresAlone s) :
    LocksOwned env AcquiresAlone s where
  deletes := deletesOwn_iff.2 (ownLocks_reach h)
  excludes q key as s' hq hrun hexpire hdelete := by
    have hstays : s'.redis key = some q := by
      induction hrun with
      | nil => exact hq
      | snoc hrun _ hstep ih =>
        simp only [List.mem_append, List.mem_singleton, not_or] at hexpire hdelete
        exact lock_stays (ownLocks_reach (h.run hrun)) hstep (ih hexpire.1 hdelete.1) hexpire.2
          hdelete.2
    exact ⟨hstays, fun p body s'' hstep => submit_refused hstays hstep⟩
  ended q r o hq hphase hne key hkey := by
    obtain ⟨r', hr', -, hopen⟩ := tokensHeld_reach h key q hkey
    cases hq.symm.trans hr'
    exact hne (hopen o hphase)

/-- **Requests release their own locks** in every run in which no request sets a lock that another
is about to delete. A request that does set such a lock may see it deleted next. -/
theorem locks_owned (h : (machine env).Reach AcquiresAlone s) :
    LocksOwned env AcquiresAlone s ∧
      ∀ p body key s', s.redis key = none →
        step env s (.request p (.submit body key)) = some s' →
        (DeletesOwn env s' ↔ AcquiresAlone s (.request p (.submit body key))) := by
  refine ⟨locksOwned_reach h, fun p body key s' hfree hstep => ?_⟩
  rw [deletesOwn_iff]
  constructor
  · intro hown _ q r o hq hphase hkey
    cases lockChange_of_step hstep with
    | refused _ hheld => exact hheld hfree
    | working hp =>
      simp [step, requestStep, hp, activeRequestStep] at hstep
    | quiet hrequests hredis =>
      simp only [step, requestStep] at hstep
      split at hstep
      · cases hstep
      · next hnone =>
        rw [hfree] at hstep
        cases hstep
        have := congrFun hredis key
        simp [hfree] at this
    | acquired hnone _ hrequests hredis =>
      -- the request that is about to delete is still there, and the token is the new one
      have hqp : q ≠ p := by
        rintro rfl
        cases hnone.symm.trans hq
      have hq' : s'.requests q = some r := by rw [hrequests, Function.update_of_ne hqp, hq]
      have hp' : s'.redis r.key = some p := by rw [hredis, hkey, Function.update_self]
      exact hqp (hown q r o hq' hphase p hp').symm
  · intro hok
    exact ownLocks_step (ownLocks_reach h) hok (lockChange_of_step hstep)

/-- The request of the sample has read its own token. -/
theorem locks_owned_deleting : ∃ s : State,
    (s.requests 0).any (fun r => r.phase = .deleting (.accepted ⟨0, "accepted", 1⟩)) = true ∧
      s.redis "key" = some 0 ∧ LocksOwned Sample.env AcquiresAlone s ∧
      ∀ p body key s', s.redis key = none →
        step Sample.env s (.request p (.submit body key)) = some s' →
        (DeletesOwn Sample.env s' ↔ AcquiresAlone s (.request p (.submit body key))) := by
  have hexec : (((machine Sample.env).exec (.initial 0)
      (Sample.creation ++ [.request 0 .getLock])).any fun s =>
        (s.requests 0).any (fun r => r.phase = .deleting (.accepted ⟨0, "accepted", 1⟩)) &&
          s.redis "key" = some 0) = true := by decide
  obtain ⟨s, hexec, hs⟩ := (Option.any_eq_true _ _).1 hexec
  obtain ⟨s₁, hsubmit, hrest⟩ := Option.bind_eq_some_iff.1 hexec
  rw [Bool.and_eq_true, decide_eq_true_eq] at hs
  -- when the request begins there is no other
  have hfirst : (machine Sample.env).Run AcquiresAlone (.initial 0)
      [.request 0 (.submit Sample.request "key")] s₁ := by
    refine .single ?_ hsubmit
    intro _ q r o hq
    cases hq
  have hlater : (machine Sample.env).Run AcquiresAlone s₁
      [.request 0 (.read 0 0), .request 0 (.commit id fun _ => 0), .request 0 .getLock] s := by
    refine Machine.Run.of_exec (fun t a ha => ?_) hrest
    simp only [List.mem_cons, List.not_mem_nil, or_false] at ha
    rcases ha with rfl | rfl | rfl <;> trivial
  exact ⟨s, hs.1, hs.2, locks_owned (.run (.init ⟨0, rfl⟩) (hfirst.trans hlater))⟩

/-- The lock of the sample's request expires between its `GET` and its `DELETE`, and request 1 sets
the lock. -/
def Sample.expired : List Action :=
  Sample.creation ++ [.request 0 .getLock, .redisExpire "key",
    .request 1 (.submit Sample.request "key")]

/-- **A foreign lock is deleted**: the first request's `DELETE` removes the second one's lock, so
that a third request sets its own while the second one runs. -/
theorem foreign_lock_deleted : ¬ ∀ (env : Deployment) (s : State),
    (machine env).Reach Machine.Always s → LocksOwned env Machine.Always s := by
  intro h
  obtain ⟨s, hrun, hs⟩ := Machine.Run.exists_of_exec_always (machine Sample.env) (.initial 0)
    Sample.expired
    (fun s => s.redis "key" = some 1 &&
      ((machine Sample.env).exec s [.request 0 .deleteLock]).any fun s' => s'.redis "key" = none)
    (by decide)
  rw [Bool.and_eq_true, decide_eq_true_eq] at hs
  obtain ⟨hlock, hdelete⟩ := hs
  obtain ⟨s', hstep, hs'⟩ := Machine.step_of_exec hdelete
  rw [decide_eq_true_eq] at hs'
  have hkept := (h Sample.env s (.run (.init ⟨0, rfl⟩) hrun)).deletes 0 s' hstep "key" 1
    (by decide) hlock
  cases hs'.symm.trans hkept

end NotificationSystem
