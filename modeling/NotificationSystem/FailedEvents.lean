import NotificationSystem.Claims
import NotificationSystem.GivingUp

/-!
# When an event is given up

`claim_pending` counts an attempt when it claims an event, before anything is published, and
`_mark_publish_failed` compares that count with `outbox_max_attempts`. So a claim whose publisher
crashed counts as much as a publish that failed.

* `raises_le_attempts` — a publish call that raised has used up an attempt.
* `failed_after_claims` — what a failed event has been through.
* `failed_after_crashes` — four crashes and one publish that raised are enough.
-/

namespace NotificationSystem

open Lib

variable {env : Deployment}

/-- How many claims of an event have not led to a publish call that raised. -/
def Ledger.othersOf (l : Ledger) (e : Uuid) : Nat := l.countP fun c => c.event = e && !c.raised

theorem claimsOf_eq (l : Ledger) (e : Uuid) : l.claimsOf e = l.raisesOf e + l.othersOf e := by
  unfold Ledger.claimsOf Ledger.raisesOf Ledger.othersOf
  induction l with
  | nil => rfl
  | cons c l ih =>
    simp only [List.countP_cons, ih]
    by_cases he : c.event = e
    · cases hr : c.raised
      · simp [he]
        omega
      · simp [he]
        omega
    · simp [he]

/-- Every publish call that raised has used up an attempt of its event. -/
theorem raises_le_attempts {s : State} (h : (machine env).Reach Machine.Always s) {e : OutboxEvent}
    (he : e ∈ s.store.outbox) : s.raisesOf e.id ≤ e.attempts := by
  obtain ⟨l, hl⟩ : ∃ l, (claimMachine env).Reach Machine.Always (s, l) := h.lift
  have hb := booked_reach hl
  rw [hb.raises, hb.attempts e he, claimsOf_eq]
  exact Nat.le_add_right _ _

/-- **A failed event** has been claimed at least `outbox_max_attempts` times. Each publish call for
it that raised belongs to a claim of its own, and there is at least one. -/
theorem failed_after_claims {x : State × Ledger} (hx : (claimMachine env).Reach Machine.Always x)
    {e : OutboxEvent} (he : e ∈ x.1.store.outbox) (hfailed : e.status = .failed) :
    env.outboxMaxAttempts ≤ x.2.claimsOf e.id ∧
      x.2.claimsOf e.id = x.1.raisesOf e.id + x.2.othersOf e.id ∧ 0 < x.1.raisesOf e.id := by
  have hb := booked_reach hx
  have hreach : (machine env).Reach Machine.Always x.1 := hx.forget fun _ _ h => h
  refine ⟨?_, ?_, ?_⟩
  · rw [← hb.attempts e he]
    exact exhausted_reach hreach e he hfailed
  · rw [hb.raises, claimsOf_eq]
  · rw [hb.raises]
    exact hb.failed e he hfailed

theorem failed_after_claims_impatient : ∃ x : State × Ledger, ∃ e ∈ x.1.store.outbox,
    e.status = .failed ∧ Sample.impatient.outboxMaxAttempts ≤ x.2.claimsOf e.id ∧
      x.2.claimsOf e.id = x.1.raisesOf e.id + x.2.othersOf e.id ∧ 0 < x.1.raisesOf e.id := by
  obtain ⟨x, hrun, hx⟩ := Machine.Run.exists_of_exec_always (claimMachine Sample.impatient)
    (.initial 0, []) (Sample.failedPublication ++ [.publisher 0 (.record 0)])
    (fun x => x.1.store.outbox.rows.any (·.status = .failed)) (by decide)
  obtain ⟨e, he, hfailed⟩ := List.any_eq_true.1 hx
  have hfailed' : e.status = .failed := by simpa using hfailed
  exact ⟨x, e, he, hfailed', failed_after_claims (.run (.init ⟨⟨0, rfl⟩, rfl⟩) hrun) he hfailed'⟩

/-- A publisher claims the sample's created event at the second `n` and crashes. -/
def Sample.crashedClaim (n : Int) : List Action :=
  [.publisher 0 (.claim (Sample.sec n) (Sample.sec n) (Sample.sec n) []), .publisher 0 .crash]

/-- The fifth claim leads to a publish call, which raises. -/
def Sample.fifthClaim : List Action :=
  Sample.creation ++ Sample.crashedClaim 0 ++ Sample.crashedClaim 301 ++ Sample.crashedClaim 602 ++
    Sample.crashedClaim 903 ++
      [.publisher 0 (.claim (Sample.sec 1204) (Sample.sec 1204) (Sample.sec 1204) []),
        .publisher 0 .load, .publisher 0 (.publishRaises "broker is down" false),
        .publisher 0 (.record (Sample.sec 1204))]

/-- **Crashes use up the attempts**: an event may be given up after one publish call. -/
theorem failed_after_crashes : ¬ ∀ (env : Deployment) (s : State) (e : OutboxEvent),
    (machine env).Reach Machine.Always s → e ∈ s.store.outbox → e.status = .failed →
      env.outboxMaxAttempts ≤ s.raisesOf e.id := by
  intro h
  obtain ⟨s, hrun, hs⟩ := Machine.Run.exists_of_exec_always (machine Sample.env) (.initial 0)
    Sample.fifthClaim (fun s => s.store.outbox.rows.any fun e => e.status = .failed &&
      s.raisesOf e.id = 1) (by decide)
  obtain ⟨e, he, hfailed⟩ := List.any_eq_true.1 hs
  simp only [Bool.and_eq_true, decide_eq_true_eq] at hfailed
  have hmax := h Sample.env s e (.run (.init ⟨0, rfl⟩) hrun) he hfailed.1
  rw [hfailed.2] at hmax
  exact absurd hmax (by decide)

end NotificationSystem
