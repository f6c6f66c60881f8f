import NotificationSystem.References

/-!
# Requests and cleaners

What a step does to requests, cleaners, batches and idempotency records. Workers and publishers
touch none of these.

* `RequestChange` — the steps of a request.
* `ApiChange`, `apiChange_of_step` — the inversion theorem for this half of the store.
-/

namespace NotificationSystem

open Lib

variable {env : Deployment} {s s' : State} {a : Action}

/-- The batch and the subscriber of each notification. -/
def Store.members (st : Store) : List (Uuid × Int) :=
  st.notifications.rows.map fun n => (n.batchId, n.subscriberId)

/-- The answer that a request has decided on. -/
def RequestPhase.outcome? : RequestPhase → Option Outcome
  | .releasing o | .deleting o | .done o => some o
  | _ => none

/-- What a step of the request `q` does to it and to the store. -/
inductive RequestChange (env : Deployment) (s : State) (q : Nat) : RequestAction → State → Prop
  | submitted {body : BulkNotificationRequest} {key : String} {s' : State} :
      s.requests q = none → s.redis key = none → s'.requests q = some ⟨body, key, .locked⟩ →
      s'.store = s.store → RequestChange env s q (.submit body key) s'
  | refused {body : BulkNotificationRequest} {key : String} {s' : State} :
      s.requests q = none → s.redis key ≠ none →
      s'.requests q = some ⟨body, key, .done .inProgress⟩ → s'.store = s.store →
      RequestChange env s q (.submit body key) s'
  | read {r : Request} {t₁ t₂ : Time} {s' : State} : s.requests q = some r → r.phase = .locked →
      s.now ≤ t₁ → t₁ ≤ t₂ → s'.now = t₂ →
      s'.requests q = some { r with
        phase := afterRead
          (reserveOrGet env.toSettings s.store r.key (env.requestHash r.body) t₁ t₂) } →
      s'.store = s.store → RequestChange env s q (.read t₁ t₂) s'
  | committed {r : Request} {reservation : Reservation} {ids : Nat → Uuid} {stamps : Nat → Time}
      {response : BulkNotificationResponse} {s' : State} :
      s.requests q = some r → r.phase = .reserved reservation →
      s.store.Fresh (bulkIds ids (distinctRecipients r.body.recipientIds).length) →
      commitBulk s.store r.body r.key (env.requestHash r.body) reservation ids stamps =
        .ok (s'.store, response) →
      s'.requests q = some { r with phase := .releasing (.accepted response) } →
      RequestChange env s q (.commit ids stamps) s'
  | rejected {r : Request} {reservation : Reservation} {ids : Nat → Uuid} {stamps : Nat → Time}
      {e : Raised} {s' : State} : s.requests q = some r → r.phase = .reserved reservation →
      s.store.Fresh (bulkIds ids (distinctRecipients r.body.recipientIds).length) →
      commitBulk s.store r.body r.key (env.requestHash r.body) reservation ids stamps =
        .error e → e ≠ .dataError →
      s'.requests q = some { r with
        phase := if e = .integrityError then .rolledBack else .releasing .raised } →
      s'.store = s.store → RequestChange env s q (.commit ids stamps) s'
  | found {r : Request} {s' : State} : s.requests q = some r → r.phase = .rolledBack →
      s'.requests q = some { r with
        phase := afterFind (env.requestHash r.body) (findRecord s.store r.key) } →
      s'.store = s.store → RequestChange env s q .find s'
  | aborted {r : Request} {s' : State} : s.requests q = some r → r.phase.outcome? = none →
      s'.requests q = some { r with phase := .releasing .raised } → s'.store = s.store →
      RequestChange env s q .abort s'
  | released {r : Request} {o : Outcome} {phase : RequestPhase} {a : RequestAction} {s' : State} :
      a = .getLock ∨ a = .deleteLock → s.requests q = some r → r.phase.outcome? = some o →
      phase.outcome? = some o → s'.requests q = some { r with phase } → s'.store = s.store →
      RequestChange env s q a s'
  | crashed {r : Request} {s' : State} : s.requests q = some r →
      s'.requests q = some { r with phase := .done .crashed } → s'.store = s.store →
      RequestChange env s q .crash s'

theorem setRequest_self {q : Nat} {r : Request} : (s.setRequest q r).requests q = some r := by
  simp [State.setRequest]

theorem requestStep_cases {q : Nat} {a : RequestAction} (h : requestStep env s q a = some s') :
    RequestChange env s q a s' := by
  cases requestStep_inv h with
  | submit hq hfree => exact .submitted hq hfree setRequest_self rfl
  | refuse hq hheld => exact .refused hq hheld setRequest_self rfl
  | read hq hphase h₁ h₂ => exact .read hq hphase h₁ h₂ rfl setRequest_self rfl
  | commit hq hphase hfresh hcom => exact .committed hq hphase hfresh hcom setRequest_self
  | rollBack hq hphase hfresh hcom he =>
    exact .rejected hq hphase hfresh hcom he setRequest_self rfl
  | find hq hphase => exact .found hq hphase setRequest_self rfl
  | abort hq hphase =>
    refine .aborted hq ?_ setRequest_self rfl
    rcases hphase with hphase | ⟨reservation, hphase⟩ | hphase <;> rw [hphase] <;> rfl
  | @own r o hq hphase =>
    exact .released (o := o) (.inl rfl) hq (by rw [hphase]; rfl) rfl setRequest_self rfl
  | @lost r o hq hphase =>
    exact .released (o := o) (.inl rfl) hq (by rw [hphase]; rfl) rfl setRequest_self rfl
  | @deleteLock r o hq hphase =>
    exact .released (o := o) (.inr rfl) hq (by rw [hphase]; rfl) rfl setRequest_self rfl
  | crash hq => exact .crashed hq setRequest_self rfl

/-- What a step does to requests, cleaners, batches and records. -/
inductive ApiChange (env : Deployment) (s : State) : Action → State → Prop
  | quiet {a : Action} {s' : State} : s.now ≤ s'.now → s'.requests = s.requests →
      s'.cleaners = s.cleaners → s'.store.batches = s.store.batches →
      s'.store.idempotencyKeys = s.store.idempotencyKeys →
      s'.store.members = s.store.members → ApiChange env s a s'
  | request {q : Nat} {a : RequestAction} {s' : State} : s.now ≤ s'.now →
      RequestChange env s q a s' → s'.cleaners = s.cleaners →
      (∀ p, p ≠ q → s'.requests p = s.requests p) → ApiChange env s (.request q a) s'
  | select {c : Nat} {t₁ : Time} : s.now ≤ t₁ →
      ApiChange env s (.cleaner c (.select t₁))
        { s with
          now := t₁
          cleaners := Function.update s.cleaners c (some (expiredRecords s.store t₁)) }
  | delete {c : Nat} {t₂ : Time} {selected : List IdempotencyKey} :
      s.cleaners c = some selected → s.now ≤ t₂ →
      ApiChange env s (.cleaner c (.delete t₂))
        { s with
          now := t₂
          store := deleteExpired s.store selected t₂
          cleaners := Function.update s.cleaners c none }
  | stop {c : Nat} :
      ApiChange env s (.cleaner c .crash)
        { s with cleaners := Function.update s.cleaners c none }

@[simp] theorem members_saveNotification {st : Store} {loaded updated : Notification} :
    (st.saveNotification loaded updated).members = st.members := by
  simp only [Store.members, Store.saveNotification, Table.modify, Table.rows_modifyWhere,
    List.map_map]
  refine List.map_congr_left fun n _ => ?_
  simp only [Function.comp_apply]
  split <;> rfl

theorem reserved_members {cfg : Settings} {st st' : Store} {id : Uuid} {payload : Payload}
    {t₁ t₂ t₃ : Time} {ids : EventIds} {out : Option Notification}
    (h : Reserved cfg st id payload t₁ t₂ t₃ ids st' out) : st'.members = st.members := by
  cases h with
  | missing | final | covered | deferred => rfl
  | refused | attempt => exact members_saveNotification

theorem applied_members {cfg : Settings} {st st' : Store} {id : Uuid} {payload : Payload}
    {loaded : Notification} {result : ProviderResult} {t₁ t₂ : Time} {ids : EventIds}
    (h : Applied cfg st id payload loaded result t₁ t₂ ids st') : st'.members = st.members := by
  cases h with
  | guarded => rfl
  | delivered | retried | dropped => exact members_saveNotification

theorem workerStep_members {w : Nat} {a : WorkerAction} (h : workerStep env s w a = some s') :
    s'.store.members = s.store.members := by
  have hchange : Change env s (.worker w a) s' := workerStep_change h
  cases hchange with
  | quiet _ hn => rw [Store.members, hn]; rfl
  | call => rfl
  | reserve _ _ _ _ _ hres =>
    rw [afterReserve_store]
    exact reserved_members hres
  | apply _ _ _ _ happ => exact applied_members happ

theorem apiChange_of_step (h : step env s a = some s') : ApiChange env s a s' := by
  have hnow : s.now ≤ s'.now := (change_of_step h).now_le
  cases a with
  | tick t =>
    simp only [step] at h
    split at h
    · cases h
      exact .quiet hnow rfl rfl rfl rfl rfl
    · cases h
  | worker w a =>
    have hframe := workerStep_frame h
    exact .quiet hnow hframe.requests hframe.cleaners hframe.batches hframe.idempotencyKeys
      (workerStep_members h)
  | publisher p a =>
    have hframe := publisherStep_frame h
    exact .quiet hnow hframe.requests hframe.cleaners hframe.batches hframe.idempotencyKeys
      (by rw [Store.members, hframe.notifications]; rfl)
  | request q a =>
    obtain ⟨-, hcleaners, hothers⟩ := requestStep_frame h
    exact .request hnow (requestStep_cases h) hcleaners hothers
  | cleaner c a =>
    cases cleanerStep_inv h with
    | select _ ht => exact .select ht
    | delete hsel ht => exact .delete hsel ht
    | crash => exact .stop
  | redisExpire key =>
    cases h
    exact .quiet hnow rfl rfl rfl rfl rfl

end NotificationSystem
