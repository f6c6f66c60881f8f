import NotificationSystem.Integrity
import NotificationSystem.NoLoss
import NotificationSystem.Routing

/-!
# Workers for one queue

`worker_queue_mode` splits the workers between the queues: those of mode `high` take transactional
messages only, those of mode `low` marketing ones. No marketing notification keeps a `high` worker
busy, then, and a type that no worker serves is left alone.

* `GetsOwn` — each worker takes its messages from the queues of its mode.
* `holdsOwn_reach`, `leftAlone_reach` — the invariants.
* `modes_serve` — whom a worker works for, and what happens to a type without workers.
-/

namespace NotificationSystem

open Lib

inductive WorkerQueueMode
  | high
  | low
  | both
  deriving DecidableEq, Repr

/-- `_queue_names`. -/
def WorkerQueueMode.queueNames : WorkerQueueMode → List QueueName
  | .high => [.high]
  | .low => [.low]
  | .both => [.high, .low]

variable {env : Deployment} {s s' : State} {a : Action} {modes : Nat → WorkerQueueMode} {w : Nat}
  {n : Notification}

/-- Each worker takes its messages from the queues of its mode. -/
def GetsOwn (modes : Nat → WorkerQueueMode) (_ : State) : Action → Prop
  | .worker w (.get queue _) => queue ∈ (modes w).queueNames
  | _ => True

/-- Each worker holds a message from one of its queues. -/
def HoldsOwn (modes : Nat → WorkerQueueMode) (s : State) : Prop :=
  ∀ w d, (s.workers w).delivery? = some d → d.queue ∈ (modes w).queueNames

theorem holdsOwn_step (hs : HoldsOwn modes s) (hok : GetsOwn modes s a)
    (h : step env s a = some s') : HoldsOwn modes s' := by
  intro v d hd
  rcases step_party h with ⟨w, b, rfl, hstep⟩ | ⟨p, b, rfl, hstep⟩ | hframe
  · by_cases hv : v = w
    · subst hv
      -- the worker keeps the message it held, but for a `get`
      have keeps {x : Worker} {t : State} {d₀ : Delivery} (hold : (s.workers v).delivery? = some d₀)
          (ht : t.workers = (s.setWorker v x).workers) (hd : (t.workers v).delivery? = some d)
          (hx : x.delivery? = none ∨ x.delivery? = some d₀ ∨
            x.delivery? = some { d₀ with live := false }) :
          d.queue ∈ (modes v).queueNames := by
        rw [ht, setWorker_self] at hd
        rcases hx with hx | hx | hx <;> rw [hx] at hd <;> cases hd
        · exact hs v d hold
        · exact hs v d₀ hold
      cases workerStep_cases hstep with
      | get hw hmem =>
        rw [setWorker_self] at hd
        cases hd
        exact hok
      | @reserve d₀ _ _ _ _ st out hw =>
        cases out <;> exact keeps (by rw [hw]; rfl) rfl hd (.inr (.inl rfl))
      | reserveRaises hw | send hw | answer hw | sendRaises hw | apply hw | applyRaises hw =>
        exact keeps (by rw [hw]; rfl) rfl hd (.inr (.inl rfl))
      | ack hw | reject hw | crash hw =>
        rw [setWorker_self] at hd
        cases hd
      | disconnect hw => exact keeps hw rfl hd (.inr (.inr (delivery_disconnected hw)))
    · rw [(workerStep_frame hstep).workers v hv] at hd
      exact hs v d hd
  · rw [(publisherStep_frame hstep).workers] at hd
    exact hs v d hd
  · rw [hframe.workers] at hd
    exact hs v d hd

theorem holdsOwn_reach (h : (machine env).Reach (GetsOwn modes) s) : HoldsOwn modes s := by
  refine Machine.Reach.induct ?_ (fun _ _ _ _ hs hok hstep => holdsOwn_step hs hok hstep) h
  rintro _ ⟨now, rfl⟩ w d hd
  cases hd

theorem delivery_of_flight {x : Worker} {f : Flight} (hf : x.flight? = some f) :
    ∃ d, x.delivery? = some d ∧ f.payload = d.message.payload := by
  cases x <;> cases hf <;> exact ⟨_, rfl, rfl⟩

theorem served_of_delivery (h : (machine env).Reach (GetsOwn modes) s) {d : Delivery}
    (hd : (s.workers w).delivery? = some d)
    (hn : s.store.notifications.get d.message.payload.notificationId = some n) :
    n.type.queue ∈ (modes w).queueNames := by
  have hnames := names_of_delivery (traced_reach h) (addressed_reach h) hd hn
  have hqueue := ((sorted_reach h).deliveries w d hd).2
  rw [← hnames.type, ← hqueue]
  exact holdsOwn_reach h w d hd

theorem served_of_flight (h : (machine env).Reach (GetsOwn modes) s) {f : Flight}
    (hf : (s.workers w).flight? = some f)
    (hn : s.store.notifications.get f.loaded.id = some n) :
    n.type.queue ∈ (modes w).queueNames := by
  obtain ⟨d, hd, hpayload⟩ := delivery_of_flight hf
  have hid := ((referenced_reach h).flights w f hf).1
  exact served_of_delivery h hd (by rw [← hpayload, ← hid]; exact hn)

/-! ## A type without workers -/

/-- No worker serves the notification's type. -/
def Unserved (modes : Nat → WorkerQueueMode) (n : Notification) : Prop :=
  ∀ w, n.type.queue ∉ (modes w).queueNames

/-- The notifications that no worker serves are as they were created, and were never sent. -/
def LeftAlone (modes : Nat → WorkerQueueMode) (s : State) : Prop :=
  ∀ n ∈ s.store.notifications, Unserved modes n → n.status = .queued ∧ n.attempts = 0 ∧
    s.callsOf n.id = []

theorem leftAlone_of_same (hs : LeftAlone modes s)
    (hn : s'.store.notifications.get n.id = s.store.notifications.get n.id)
    (hc : s'.callsOf n.id = s.callsOf n.id) (hmem : n ∈ s'.store.notifications)
    (hun : Unserved modes n) : n.status = .queued ∧ n.attempts = 0 ∧ s'.callsOf n.id = [] := by
  rw [Table.get_of_mem hmem] at hn
  rw [hc]
  exact hs n (Table.mem_of_get hn.symm) hun

theorem leftAlone_step (h : (machine env).Reach (GetsOwn modes) s) (hs : LeftAlone modes s)
    (hstep : step env s a = some s') : LeftAlone modes s' := by
  intro n hmem hun
  have hrefs := referenced_reach h
  have hchange := change_of_step hstep
  have hget := Table.get_of_mem hmem
  -- whom a worker serves is another notification
  have other {w : Nat} {m : Notification} (hm : s.store.notifications.get n.id = some m)
      (hserved : m.type.queue ∈ (modes w).queueNames) : False := by
    obtain ⟨n', hn', hsame⟩ := hchange.keepsCreated _ m hm
    obtain rfl : n = n' := Option.some.inj (hget.symm.trans hn')
    have htype : n.type = m.type := Notification.column_eq hsame (·.type)
    exact hun w (htype ▸ hserved)
  have flown {w : Nat} {f : Flight} (hf : (s.workers w).flight? = some f) : n.id ≠ f.loaded.id := by
    intro hid
    obtain ⟨-, m, hm⟩ := hrefs.flights w f hf
    exact other (hid ▸ hm) (served_of_flight h hf hm)
  cases hchange with
  | quiet _ hn _ _ hc =>
    exact leftAlone_of_same hs (by rw [hn]) (by rw [State.callsOf, hc]; rfl) hmem hun
  | claim _ _ _ _ heq =>
    subst heq
    exact leftAlone_of_same hs rfl rfl hmem hun
  | recordPublished | recordRaised => exact leftAlone_of_same hs rfl rfl hmem hun
  | @call w d m hw =>
    have hne : m.id ≠ n.id := (flown (congrArg Worker.flight? hw)).symm
    refine leftAlone_of_same hs rfl ?_ hmem hun
    simp [State.callsOf, providerCall, List.filter_append, hne]
  | @reserve w d _ _ t₃ _ st out hw _ _ _ _ hres =>
    have hd : (s.workers w).delivery? = some d := by rw [hw]; rfl
    have hsame : (afterReserve s w d t₃ (.ok (st, out))).store.notifications.get n.id =
        s.store.notifications.get n.id := by
      rw [afterReserve_store]
      by_cases hid : n.id = d.message.payload.notificationId
      · cases hm : s.store.notifications.get n.id with
        | some m => exact (other hm (served_of_delivery h hd (hid ▸ hm))).elim
        | none =>
          rw [hid] at hm ⊢
          cases hres with
          | missing => exact hm
          | final hg | covered hg | deferred hg | refused hg | attempt hg =>
            rw [hm] at hg
            cases hg
      · exact reserved_get_ne hres hid
    exact leftAlone_of_same hs hsame (by rw [State.callsOf, afterReserve_calls]; rfl) hmem hun
  | @apply w d m _ _ _ _ st hw _ _ _ happ =>
    have hne : n.id ≠ m.id := flown (congrArg Worker.flight? hw)
    exact leftAlone_of_same hs (applied_get_ne happ hne) rfl hmem hun
  | @commit q r reservation ids stamps st response _ _ hfresh hcom =>
    obtain ⟨hinsert, -, -⟩ := commitBulk_delivery hcom
    rcases (Table.mem_insertAll? hinsert).1 hmem with hold | hnew
    · have hsame : st.notifications.get n.id = s.store.notifications.get n.id :=
        (Table.get_insertAll? hinsert (Table.get_of_mem hold)).trans (Table.get_of_mem hold).symm
      exact leftAlone_of_same hs hsame rfl hmem hun
    · -- a new notification was not called for under its id
      have hcalls : s.callsOf n.id = [] := by
        refine List.filter_eq_nil_iff.2 fun c hc hid => ?_
        obtain ⟨m, hm⟩ := hrefs.calls c hc
        rw [of_decide_eq_true hid] at hm
        exact newNotification_fresh hfresh hnew
          (Table.get_key hm ▸ mem_uuids_of_notification (Table.mem_of_get hm))
      obtain ⟨i, recipientId, -, rfl⟩ := mem_newNotifications hnew
      exact ⟨rfl, rfl, hcalls⟩

theorem leftAlone_reach (h : (machine env).Reach (GetsOwn modes) s) : LeftAlone modes s := by
  refine Machine.Reach.induct ?_ (fun _ _ _ hreach hs _ hstep => leftAlone_step hreach hs hstep) h
  rintro _ ⟨now, rfl⟩ n hn
  exact absurd hn Table.not_mem_empty

/-! ## Whom a worker works for -/

/-- **A worker works for the types of its mode only**: the messages it holds and the attempts it
makes are of those types. A notification of a type that no worker serves stays queued, without an
attempt and unknown to the provider. -/
theorem modes_serve (h : (machine env).Reach (GetsOwn modes) s) :
    (∀ w d, (s.workers w).delivery? = some d →
        d.message.payload.type.queue ∈ (modes w).queueNames) ∧
      (∀ w f, (s.workers w).flight? = some f → f.loaded.type.queue ∈ (modes w).queueNames) ∧
      ∀ n ∈ s.store.notifications, (∀ w, n.type.queue ∉ (modes w).queueNames) →
        n.status = .queued ∧ n.attempts = 0 ∧ s.callsOf n.id = [] := by
  refine ⟨fun w d hd => ?_, fun w f hf => ?_, leftAlone_reach h⟩
  · rw [← ((sorted_reach h).deliveries w d hd).2]
    exact holdsOwn_reach h w d hd
  · obtain ⟨n, hn, hsame⟩ :=
      (copied_reach h f.loaded.id).flights w f (flightOf_eq_some.2 ⟨hf, rfl⟩)
    have htype : f.loaded.type = n.type := Notification.column_eq hsame (·.type)
    rw [htype]
    exact served_of_flight h hf hn

/-- The message of a transactional notification waits while every worker takes marketing ones. -/
theorem modes_serve_waiting : ∃ (s : State) (n : Notification),
    s.store.notifications.get 1 = some n ∧ s.broker.queues .high = [Sample.message] ∧
      n.status = .queued ∧ n.attempts = 0 ∧ s.callsOf n.id = [] := by
  obtain ⟨s, hrun, hp⟩ := Machine.Run.exists_of_execChecked (machine Sample.env)
    (GetsOwn fun _ => .low) (fun _ a => a matches .request .. | .publisher ..) (.initial 0)
    (Sample.creation ++ Sample.publication)
    (fun s => (s.store.notifications.get 1).any (·.type = .transactional) &&
      s.broker.queues .high = [Sample.message])
    (fun _ a ha => by
      cases a with
      | worker => cases ha
      | request | publisher | cleaner | tick | redisExpire => trivial)
    (by decide)
  obtain ⟨hn, hbroker⟩ := Bool.and_eq_true_iff.1 hp
  obtain ⟨n, hget, htype⟩ := (Option.any_eq_true _ _).1 hn
  refine ⟨s, n, hget, of_decide_eq_true hbroker,
    (modes_serve ⟨_, _, ⟨0, rfl⟩, hrun⟩).2.2 n (Table.mem_of_get hget) fun w hw => ?_⟩
  rw [of_decide_eq_true htype] at hw
  cases hw with
  | tail _ hw => cases hw

end NotificationSystem
