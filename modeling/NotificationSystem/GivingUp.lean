import NotificationSystem.NoLoss

/-!
# Giving up on publishing

After `outbox_max_attempts` claims a failing publish leaves its event `failed`, and no part of
the system looks at it again. Its notification is not told.

* `giving_up_strands` — a notification may then stay queued with nothing left to move it.
* `giving_up_parks` — at worst it is parked behind events that were given up or dead-lettered.
-/

namespace NotificationSystem

open Lib

variable {env : Deployment} {s s' : State} {a : Action} {id : Uuid}

/-- Nothing is left that moves the notification by itself: each of its unanswered events has
been given up after `outbox_max_attempts` claims, or has been dead-lettered. -/
def State.Parked (env : Deployment) (s : State) (id : Uuid) : Prop :=
  (∃ e, s.Drives id e) ∧ ∀ e, s.Drives id e →
    (e.status = .failed ∧ env.outboxMaxAttempts ≤ e.attempts) ∨
      ∃ m ∈ s.broker.queues .dlq, m.event = e.id ∧ m.payload.notificationId = id

/-- A failed event has used up its attempts. -/
def Exhausted (env : Deployment) (s : State) : Prop :=
  ∀ e ∈ s.store.outbox, e.status = .failed → env.outboxMaxAttempts ≤ e.attempts

theorem exhausted_step (hr : Referenced s) (ht : Traced s) (hs : Exhausted env s)
    (h : Change env s a s') : Exhausted env s' := by
  intro e' he' hstatus
  cases event_of_change hr h he' with
  | kept hmem => exact hs e' hmem hstatus
  | new hnew => cases hnew.pending.symm.trans hstatus
  | claimed => cases hstatus
  | @published e row p t todo hmem =>
    rw [writeBack_attempts row (row.markPublished t) e rfl]
    rcases writeBack_status row (row.markPublished t) e with h | h
    · exact hs e hmem (h.symm.trans hstatus)
    · cases h.symm.trans hstatus
  | @raised e row p error todo hmem hp hid =>
    obtain ⟨-, g, hg, hsame, hle⟩ := ht.rows p row (congrArg Publisher.row? hp)
    obtain rfl : e = g := Table.eq_of_key hmem hg (hid.trans (asWritten_id hsame).symm)
    rw [writeBack_attempts row (row.markPublishFailed env.toSettings error) e rfl]
    rcases writeBack_status row (row.markPublishFailed env.toSettings error) e with h | h
    · exact hs e hmem (h.symm.trans hstatus)
    · rcases markPublishFailed_status env.toSettings row error with h' | ⟨-, hmax⟩
      · cases (h.trans h').symm.trans hstatus
      · exact hmax.trans (by exact_mod_cast hle)

theorem exhausted_reach {ok : State → Action → Prop} (h : (machine env).Reach ok s) :
    Exhausted env s := by
  refine Machine.Reach.induct ?_ (fun t a t' hreach ht _ hstep => ?_) h
  · rintro _ ⟨now, rfl⟩ e he
    exact absurd he Table.not_mem_empty
  · exact exhausted_step (referenced_reach hreach) (traced_reach hreach) ht (change_of_step hstep)

theorem parked_of_still (h : (machine env).Reach Machine.Always s) {n : Notification}
    (hn : s.store.notifications.get id = some n) (hopen : n.isFinal = false)
    (hlive : ¬ s.HasLiveEvent id) (hmsg : ¬ s.HasMessage id) : s.Parked env id := by
  obtain ⟨hmem, rfl⟩ := Table.get_eq_some.1 hn
  refine ⟨driven_reach h n hmem hopen, fun e he => ?_⟩
  obtain ⟨hout, hagg, htype, -⟩ := id he
  rcases driver_cases (traced_reach h) (delivered_reach h) he with hs | hs | hs | hs | hs
  · exact absurd ⟨e, hout, hagg, htype, .inl hs⟩ hlive
  · exact absurd ⟨e, hout, hagg, htype, .inr hs⟩ hlive
  · exact .inl ⟨hs, exhausted_reach h e hout hs⟩
  · exact absurd hs hmsg
  · exact .inr hs

/-- **Giving up on publishing parks a notification at worst.** Recording the outcome of a
publish leaves the notifications and their history alone, and afterwards the notification of
every event is final, has a live event or a message, or is parked. -/
theorem giving_up_parks (h : (machine env).Reach Machine.Always s) {p : Nat} {t : Time}
    (hstep : step env s (.publisher p (.record t)) = some s') {e : OutboxEvent}
    (he : e ∈ s'.store.outbox) :
    s'.store.notifications = s.store.notifications ∧ s'.store.history = s.store.history ∧
      ∃ n, s'.store.notifications.get e.aggregateId = some n ∧
        (n.isFinal = true ∨ s'.HasLiveEvent e.aggregateId ∨ s'.HasMessage e.aggregateId ∨
          s'.Parked env e.aggregateId) := by
  have h' : (machine env).Reach Machine.Always s' :=
    Machine.Reach.step (a := .publisher p (.record t)) h trivial hstep
  have hpub : publisherStep env s p (.record t) = some s' := hstep
  have hhist : s'.store.history = s.store.history := by
    cases publisherStep_cases hpub <;> rfl
  obtain ⟨n, hn⟩ := (referenced_reach h').outbox e he
  refine ⟨(publisherStep_frame hpub).notifications, hhist, n, hn, ?_⟩
  cases hopen : n.isFinal with
  | true => exact .inl rfl
  | false =>
    by_cases hlive : s'.HasLiveEvent e.aggregateId
    · exact .inr (.inl hlive)
    · by_cases hmsg : s'.HasMessage e.aggregateId
      · exact .inr (.inr (.inl hmsg))
      · exact .inr (.inr (.inr (parked_of_still h' hn hopen hlive hmsg)))

/-- The publish of the sample's created event fails. -/
def Sample.failedPublication : List Action :=
  Sample.creation ++ [.publisher 0 (.claim 0 0 0 []), .publisher 0 .load,
    .publisher 0 (.publishRaises "broker is down" false)]

theorem giving_up_parks_created : ∃ s s' : State, ∃ e ∈ s'.store.outbox, e.status = .failed ∧
    s'.store.notifications = s.store.notifications ∧ s'.store.history = s.store.history ∧
      ∃ n, s'.store.notifications.get e.aggregateId = some n ∧
        (n.isFinal = true ∨ s'.HasLiveEvent e.aggregateId ∨ s'.HasMessage e.aggregateId ∨
          s'.Parked Sample.impatient e.aggregateId) := by
  obtain ⟨s, hrun, hs⟩ := Machine.Run.exists_of_exec_always (machine Sample.impatient)
    (.initial 0) Sample.failedPublication
    (fun s => ((machine Sample.impatient).exec s [.publisher 0 (.record 0)]).any fun s' =>
      s'.store.outbox.rows.any (·.status = .failed)) (by decide)
  obtain ⟨s', hstep, hs'⟩ := Machine.step_of_exec hs
  obtain ⟨e, he, hfailed⟩ := List.any_eq_true.1 hs'
  exact ⟨s, s', e, he, by simpa using hfailed,
    giving_up_parks (.run (.init ⟨0, rfl⟩) hrun) hstep he⟩

/-- **A notification is stranded** when its only event is given up: no worker has ever seen
it. -/
theorem giving_up_strands : ¬ ∀ (env : Deployment) (s s' : State) (p : Nat) (t : Time)
    (e : OutboxEvent), (machine env).Reach Machine.Always s →
      step env s (.publisher p (.record t)) = some s' → e ∈ s'.store.outbox →
      e.eventType = .created ∨ e.eventType = .retryScheduled → e.status = .failed →
      (∀ f ∈ s.store.outbox, f.id = e.id → f.status ≠ .failed) →
      ∃ n, s'.store.notifications.get e.aggregateId = some n ∧
        (n.isFinal = true ∨ s'.HasLiveEvent e.aggregateId ∨ s'.HasMessage e.aggregateId) := by
  intro h
  obtain ⟨s, hexec, hs⟩ := (Option.any_eq_true (fun s =>
      s.store.outbox.rows.all (·.status = .processing) &&
        ((machine Sample.impatient).exec s [.publisher 0 (.record 0)]).any fun s' =>
          (s'.store.notifications.get 1).any (·.status = .queued) &&
            s'.store.outbox.rows.any (·.eventType = .created) &&
            s'.store.outbox.rows.all (fun e => e.status = .failed && e.aggregateId = 1) &&
            s'.broker.queues .high = [] && s'.broker.queues .low = [])
    ((machine Sample.impatient).exec (.initial 0) Sample.failedPublication)).1 (by decide)
  have hidle (w : Nat) : s.workers w = .idle := by
    have hmap : ((machine Sample.impatient).exec (.initial 0) Sample.failedPublication).map
        (fun s => s.workers w) = some .idle := rfl
    rw [hexec] at hmap
    exact Option.some.inj hmap
  rw [Bool.and_eq_true] at hs
  obtain ⟨s', hstep, hs'⟩ := Machine.step_of_exec hs.2
  simp only [Bool.and_eq_true, Option.any_eq_true, List.any_eq_true, List.all_eq_true,
    decide_eq_true_eq] at hs hs'
  obtain ⟨⟨⟨⟨⟨n, hn, hqueued⟩, e, he, htype⟩, hall⟩, hhigh⟩, hlow⟩ := hs'
  obtain ⟨hfailed, hid⟩ := hall e he
  obtain ⟨n', hn', hdriven⟩ := h Sample.impatient s s' 0 0 e
    (.run (.init ⟨0, rfl⟩) (Machine.Run.of_exec_always hexec)) hstep he (.inl htype) hfailed
    fun f hf _ hff => by cases (hs.1 f hf).symm.trans hff
  rw [hid] at hn' hdriven
  obtain rfl := Option.some.inj (hn.symm.trans hn')
  rcases hdriven with hfin | ⟨f, hf, -, -, hlive⟩ | ⟨m, -, hm | hm | ⟨w, d, hd, -⟩⟩
  · simp [Notification.isFinal, hqueued] at hfin
  · rw [(hall f hf).1] at hlive
    rcases hlive with hlive | hlive <;> cases hlive
  · rw [hhigh] at hm
    cases hm
  · rw [hlow] at hm
    cases hm
  · have hframe : PublisherFrame 0 s s' := publisherStep_frame (a := .record 0) hstep
    rw [hframe.workers, hidle w] at hd
    cases hd

end NotificationSystem
