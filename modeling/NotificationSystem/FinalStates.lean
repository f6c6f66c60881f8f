import NotificationSystem.ProviderCalls

/-!
# Final states

`reserve` loads the stored row and leaves a final one alone. `apply` guards against a final
instance, but the instance is the one its own `reserve` left: when another worker has
finished the notification since, the guard does not see it.

* `final_not_absorbing` — a late result rewrites a delivered notification.
* `final_absorbing` — nothing changes a final notification in the runs whose results are all
  applied to a notification that is still open.
-/

namespace NotificationSystem

open Lib

variable {env : Deployment} {s s' : State} {a : Action} {id : Uuid} {cfg : Settings}
  {l l' : Lifecycle}

/-- The columns that report how a notification ended. -/
def Notification.report (n : Notification) :
    NotificationStatus × Option String × Option String × Option Time :=
  (n.status, n.lastError, n.providerMessageId, n.processingLockUntil)

/-- The events that a worker has added, as they were written. -/
def Lifecycle.workerEvents (l : Lifecycle) : List OutboxEvent :=
  (l.events.map (·.asWritten)).filter fun e =>
    e.eventType = .retryScheduled || e.eventType = .failed

/-- Nothing that a worker writes has changed. -/
def Lifecycle.Settled (l l' : Lifecycle) : Prop :=
  l'.row.map (·.report) = l.row.map (·.report) ∧ l'.history = l.history ∧
    l'.workerEvents = l.workerEvents

/-- A result is applied while its notification is still open, unless the apply raises. -/
def AppliesToOpen (env : Deployment) (s : State) : Action → Prop
  | .worker w (.apply t₁ _ _) =>
    ∀ f result, (s.workers w).flight? = some f → f.result = some result →
      (∃ n, s.store.notifications.get f.loaded.id = some n ∧ n.isFinal = false) ∨
        env.RetryRaises f.loaded.attempts result t₁
  | _ => True

theorem open_of_applies {w : Nat} {t₁ t₂ : Time} {ids : EventIds} {f : Flight}
    {result : ProviderResult} {m : Notification}
    (hok : AppliesToOpen env s (.worker w (.apply t₁ t₂ ids)))
    (hf : (s.lifecycle id).flights w = some f) (hr : f.result = some result)
    (hm : (s.lifecycle id).row = some m)
    (hnot : ¬ env.RetryRaises f.loaded.attempts result t₁) : m.isFinal = false := by
  obtain ⟨hflight, rfl⟩ := flightOf_eq_some.1 hf
  obtain ⟨n, hn, hopen⟩ := (hok f result hflight hr).resolve_right hnot
  obtain rfl := Option.some.inj (hn.symm.trans hm)
  exact hopen

theorem settled_step (hok : AppliesToOpen env s a) {n : Notification}
    (hrow : (s.lifecycle id).row = some n) (hfin : n.isFinal = true)
    (h : (s.lifecycle id).Step env.toSettings a l') : (s.lifecycle id).Settled l' := by
  have final_row {m : Notification} (hm : (s.lifecycle id).row = some m)
      (hopen : m.isFinal = false) : False := by
    obtain rfl := Option.some.inj (hrow.symm.trans hm)
    rw [hfin] at hopen
    cases hopen
  cases h with
  | quiet _ hr hh he => exact ⟨by rw [hr], hh, by rw [Lifecycle.workerEvents, he]; rfl⟩
  | create hnone => cases hnone.symm.trans hrow
  | call => exact ⟨rfl, rfl, rfl⟩
  | reserve _ _ _ hm hopen => exact (final_row hm hopen).elim
  | defer _ _ _ hm hopen => exact (final_row hm hopen).elim
  | refuse _ _ _ hm hopen => exact (final_row hm hopen).elim
  | deliver _ _ hf hr hdel hm =>
    refine (final_row hm (open_of_applies hok hf hr hm fun hraise => ?_)).elim
    rw [hraise.1] at hdel
    cases hdel
  | retry _ _ hf hr _ hretry hm =>
    refine (final_row hm (open_of_applies hok hf hr hm fun hraise => ?_)).elim
    obtain ⟨e, he⟩ := retryUntil_of_raises hraise
    cases he.symm.trans hretry
  | drop _ _ hf hr _ hretry hm =>
    refine (final_row hm (open_of_applies hok hf hr hm fun hraise => ?_)).elim
    obtain ⟨e, he⟩ := retryUntil_of_raises hraise
    cases he.symm.trans hretry

theorem isFinal_of_report {n n' : Notification} (h : n'.report = n.report) :
    n'.isFinal = n.isFinal := by
  have hstatus : n'.status = n.status := congrArg Prod.fst h
  simp [Notification.isFinal, hstatus]

/-- **Final states are absorbing** in every run whose results are all applied to a
notification that is still open. -/
theorem final_absorbing {n : Notification} {as : List Action}
    (hs : (machine env).Reach (AppliesToOpen env) s)
    (hn : s.store.notifications.get id = some n) (hfin : n.isFinal = true)
    (hrun : (machine env).Run (AppliesToOpen env) s as s') :
    (s.lifecycle id).Settled (s'.lifecycle id) := by
  refine lifecycle_run (I := (s.lifecycle id).Settled) hs ⟨rfl, rfl, rfl⟩
    (fun t a l' _ hok ht hstep => ?_) hrun
  obtain ⟨hreport, hhist, hevents⟩ := ht
  obtain ⟨m, hm, hmn⟩ : ∃ m, (t.lifecycle id).row = some m ∧ m.report = n.report := by
    rw [show (s.lifecycle id).row = some n from hn] at hreport
    simpa [Option.map_eq_some_iff] using hreport
  obtain ⟨h₁, h₂, h₃⟩ := settled_step hok hm ((isFinal_of_report hmn).trans hfin) hstep
  exact ⟨h₁.trans hreport, h₂.trans hhist, h₃.trans hevents⟩

/-- A notification that is dropped before its provider is called stays so when its message is
delivered again. -/
theorem final_absorbing_dropped : ∃ s s' : State, s'.now = Sample.sec 5 ∧
    (s.store.notifications.get 1).map (·.status) = some .dropped ∧
      (s.lifecycle 1).Settled (s'.lifecycle 1) := by
  let again : List Action := [.worker 0 (.disconnect false),
    .worker 1 (.get .high Sample.message), .worker 1 (.reserve 0 0 (Sample.sec 5) ⟨6, 7⟩)]
  obtain ⟨s, hrun, hs⟩ := Machine.Run.exists_of_exec (machine Sample.noRetries)
    (AppliesToOpen Sample.noRetries) (.initial 0)
    Sample.attempt
    (fun s => (s.store.notifications.get 1).any (·.status = .dropped) &&
      ((machine Sample.noRetries).exec s again).any (·.now = Sample.sec 5))
    (by simp [Sample.attempt, Sample.creation, Sample.publication, AppliesToOpen]) (by decide)
  rw [Bool.and_eq_true] at hs
  obtain ⟨s', hrun', hnow⟩ := Machine.Run.exists_of_exec _ (AppliesToOpen Sample.noRetries) s
    again _ (by simp [again, AppliesToOpen]) hs.2
  obtain ⟨n, hn, hdropped⟩ := (Option.any_eq_true _ _).1 hs.1
  rw [decide_eq_true_eq] at hdropped hnow
  refine ⟨s, s', hnow, by rw [hn, Option.map_some, hdropped], ?_⟩
  exact final_absorbing (.run (.init ⟨0, rfl⟩) hrun) hn (by simp [Notification.isFinal, hdropped])
    hrun'

/-- **A late result rewrites a final notification**: worker 1 delivers it after the lock of
worker 0 has ended, and then worker 0 drops it. -/
theorem final_not_absorbing : ¬ ∀ (env : Deployment) (s s' : State) (as : List Action) (id : Uuid)
    (n : Notification), (machine env).Reach Machine.Always s →
      s.store.notifications.get id = some n → n.isFinal = true →
      (machine env).Run Machine.Always s as s' → (s.lifecycle id).Settled (s'.lifecycle id) := by
  intro h
  let late : List Action := [.worker 0 (.answer Sample.permanentError),
    .worker 0 (.apply (Sample.sec 62) (Sample.sec 62) ⟨4, 5⟩)]
  obtain ⟨s, hrun, hs⟩ := Machine.Run.exists_of_exec_always (machine Sample.env) (.initial 0)
    (Sample.attempt ++
      [.worker 0 .send, .worker 0 (.disconnect false), .worker 1 (.get .high Sample.message),
        .worker 1 (.reserve (Sample.sec 60) (Sample.sec 60) (Sample.sec 60) ⟨4, 5⟩),
        .worker 1 .send, .worker 1 (.answer Sample.deliveredResult),
        .worker 1 (.apply (Sample.sec 61) (Sample.sec 61) ⟨4, 5⟩)])
    (fun s => (s.store.notifications.get 1).any (·.status = .delivered) &&
      ((machine Sample.env).exec s late).any fun s' =>
        (s'.store.notifications.get 1).any (·.status = .dropped)) (by decide)
  rw [Bool.and_eq_true] at hs
  obtain ⟨s', hrun', hs'⟩ := Machine.Run.exists_of_exec_always _ s late _ hs.2
  obtain ⟨n, hn, hdelivered⟩ := (Option.any_eq_true _ _).1 hs.1
  obtain ⟨n', hn', hdropped⟩ := (Option.any_eq_true _ _).1 hs'
  rw [decide_eq_true_eq] at hdelivered hdropped
  obtain ⟨hreport, -, -⟩ := h Sample.env s s' late 1 n (.run (.init ⟨0, rfl⟩) hrun) hn
    (by simp [Notification.isFinal, hdelivered]) hrun'
  simp [State.lifecycle, hn, hn', Notification.report, hdelivered, hdropped] at hreport

end NotificationSystem
