import NotificationSystem.References

/-!
# Messages and the events they announce

Where a message can be, and why none disappears: a message that was published stays in a
queue or with a consumer until it has been processed.

* `accounted_step` — no step loses a message.
* `known_of_step` — a message that is known after a step was known before, or a publisher has
  just published it.
-/

namespace NotificationSystem

open Lib

variable {env : Deployment} {s s' : State} {a : Action} {m : Message}

namespace State

/-- The message waits in a queue, or a consumer has yet to ack it. -/
def Outstanding (s : State) (m : Message) : Prop :=
  (∃ q, m ∈ s.broker.queues q) ∨
    ∃ w d, (s.workers w).delivery? = some d ∧ d.live = true ∧ d.message = m

/-- The message is outstanding, or it has been processed to the end. -/
def Accounted (s : State) (m : Message) : Prop := s.Outstanding m ∨ m ∈ s.processed

/-- The message is in a queue, with a consumer, or has been processed. -/
def Known (s : State) (m : Message) : Prop :=
  (∃ q, m ∈ s.broker.queues q) ∨ (∃ w d, (s.workers w).delivery? = some d ∧ d.message = m) ∨
    m ∈ s.processed

end State

theorem known_of_accounted (h : s.Accounted m) : s.Known m := by
  rcases h with (hq | ⟨w, d, hd, -, hm⟩) | hp
  · exact .inl hq
  · exact .inr (.inl ⟨w, d, hd, hm⟩)
  · exact .inr (.inr hp)

theorem known_of_delivery {w : Nat} {d : Delivery} (h : (s.workers w).delivery? = some d) :
    s.Known d.message := .inr (.inl ⟨w, d, h, rfl⟩)

/-! ## Deliveries -/

/-- What a worker's step does to its delivery, the broker and the log of processed
messages. -/
inductive DeliveryChange (s s' : State) (w : Nat) : Prop
  | get {q : QueueName} {m : Message} : (s.workers w).delivery? = none →
      m ∈ s.broker.queues q → (s'.workers w).delivery? = some ⟨m, q, true⟩ →
      s'.broker = s.broker.take q m → s'.processed = s.processed → DeliveryChange s s' w
  | keep {d : Delivery} : (s.workers w).delivery? = some d →
      (s'.workers w).delivery? = some d → s'.broker = s.broker →
      (s'.processed = s.processed ∨ s'.processed = s.processed ++ [d.message]) →
      DeliveryChange s s' w
  | ack {d : Delivery} : s.workers w = .finished d → s'.workers w = .idle →
      s'.broker = s.broker → s'.processed = s.processed → DeliveryChange s s' w
  | giveBack {d : Delivery} {dead : Bool} : (s.workers w).delivery? = some d →
      ((s'.workers w).delivery? = none ∨
        (s'.workers w).delivery? = some { d with live := false }) →
      s'.broker = d.giveBack s.broker dead → s'.processed = s.processed → DeliveryChange s s' w

theorem delivery_disconnected {x : Worker} {d : Delivery} (h : x.delivery? = some d) :
    x.disconnected.delivery? = some { d with live := false } := by
  cases x <;> cases h <;> rfl

theorem workerStep_delivery {w : Nat} {a : WorkerAction} (h : workerStep env s w a = some s') :
    DeliveryChange s s' w := by
  have self {x : Worker} {t : State} {o : Option Delivery}
      (ht : t.workers = (s.setWorker w x).workers) (ho : x.delivery? = o) :
      (t.workers w).delivery? = o := by rw [ht, setWorker_self, ho]
  cases workerStep_cases h with
  | get hw hmem => exact .get (by rw [hw]; rfl) hmem (self rfl rfl) rfl rfl
  | @reserve d t₁ t₂ t₃ ids st out hw =>
    have hd : (s.workers w).delivery? = some d := by rw [hw]; rfl
    cases out with
    | none => exact .keep hd (self rfl rfl) rfl (.inr rfl)
    | some n => exact .keep hd (self rfl rfl) rfl (.inl rfl)
  | apply hw => exact .keep (by rw [hw]; rfl) (self rfl rfl) rfl (.inr rfl)
  | reserveRaises hw | send hw | answer hw | sendRaises hw | applyRaises hw =>
    exact .keep (by rw [hw]; rfl) (self rfl rfl) rfl (.inl rfl)
  | ack hw => exact .ack hw setWorker_self rfl rfl
  | reject hw => exact .giveBack (by rw [hw]; rfl) (.inl (self rfl rfl)) rfl rfl
  | crash hd => exact .giveBack hd (.inl (self rfl rfl)) rfl rfl
  | disconnect hd => exact .giveBack hd (.inr (self rfl (delivery_disconnected hd))) rfl rfl

theorem giveBack_mem {d : Delivery} {b : Broker} {dead : Bool} {q : QueueName}
    (h : m ∈ (d.giveBack b dead).queues q) : m ∈ b.queues q ∨ m = d.message := by
  unfold Delivery.giveBack Broker.giveBack at h
  split at h
  · exact (Broker.mem_push.1 h).imp_right And.right
  · exact .inl h

theorem mem_giveBack {d : Delivery} {b : Broker} {dead : Bool} {q : QueueName}
    (h : m ∈ b.queues q) : m ∈ (d.giveBack b dead).queues q := by
  unfold Delivery.giveBack Broker.giveBack
  split
  · exact Broker.mem_push.2 (.inl h)
  · exact h

theorem mem_giveBack_self {d : Delivery} {b : Broker} {dead : Bool} (h : d.live = true) :
    ∃ q, d.message ∈ (d.giveBack b dead).queues q := by
  unfold Delivery.giveBack Broker.giveBack
  rw [if_pos h]
  exact ⟨_, Broker.mem_push.2 (.inr ⟨rfl, rfl⟩)⟩

/-- A worker that has finished has logged its message. -/
def Logged (s : State) : Prop := ∀ w d, s.workers w = .finished d → d.message ∈ s.processed

theorem accounted_worker {w : Nat} (hlog : Logged s)
    (hothers : ∀ v, v ≠ w → s'.workers v = s.workers v) (hd : DeliveryChange s s' w)
    (hm : s.Accounted m) : s'.Accounted m := by
  -- only the delivery of `w` may move
  have other {v : Nat} {d : Delivery} (hv : v ≠ w) (hdv : (s.workers v).delivery? = some d)
      (hlive : d.live = true) : s'.Outstanding d.message :=
    .inr ⟨v, d, by rw [hothers v hv]; exact hdv, hlive, rfl⟩
  cases hd with
  | @get q x hnone hx hdel hb hp =>
    rcases hm with (⟨p, hq⟩ | ⟨v, d, hdv, hlive, rfl⟩) | hproc
    · by_cases hmx : m = x
      · exact .inl (.inr ⟨w, _, hdel, rfl, hmx.symm⟩)
      · exact .inl (.inl ⟨p, by rw [hb]; exact Broker.mem_take_of_ne hmx hq⟩)
    · refine .inl (other (fun hv => ?_) hdv hlive)
      rw [hv, hnone] at hdv
      cases hdv
    · exact .inr (hp ▸ hproc)
  | @keep d hold hnew hb hp =>
    rcases hm with (⟨q, hq⟩ | ⟨v, e, hdv, hlive, rfl⟩) | hproc
    · exact .inl (.inl ⟨q, hb ▸ hq⟩)
    · by_cases hv : v = w
      · rw [hv, hold] at hdv
        cases hdv
        exact .inl (.inr ⟨w, d, hnew, hlive, rfl⟩)
      · exact .inl (other hv hdv hlive)
    · rcases hp with hp | hp <;> rw [State.Accounted, hp]
      · exact .inr hproc
      · exact .inr (List.mem_append_left _ hproc)
  | @ack d hold _ hb hp =>
    rcases hm with (⟨q, hq⟩ | ⟨v, e, hdv, hlive, rfl⟩) | hproc
    · exact .inl (.inl ⟨q, hb ▸ hq⟩)
    · by_cases hv : v = w
      · rw [hv, hold] at hdv
        cases hdv
        exact .inr (hp ▸ hlog w d hold)
      · exact .inl (other hv hdv hlive)
    · exact .inr (hp ▸ hproc)
  | @giveBack d dead hold _ hb hp =>
    rcases hm with (⟨q, hq⟩ | ⟨v, e, hdv, hlive, rfl⟩) | hproc
    · exact .inl (.inl ⟨q, hb ▸ mem_giveBack hq⟩)
    · by_cases hv : v = w
      · rw [hv, hold] at hdv
        cases hdv
        exact .inl (.inl (hb ▸ mem_giveBack_self hlive))
      · exact .inl (other hv hdv hlive)
    · exact .inr (hp ▸ hproc)

theorem known_worker {w : Nat} (hothers : ∀ v, v ≠ w → s'.workers v = s.workers v)
    (hd : DeliveryChange s s' w) (hm : s'.Known m) : s.Known m := by
  have other {v : Nat} {d : Delivery} (hv : v ≠ w) (hdv : (s'.workers v).delivery? = some d) :
      s.Known d.message :=
    known_of_delivery (by rw [← hothers v hv]; exact hdv)
  cases hd with
  | @get q x hnone hx hdel hb hp =>
    rcases hm with ⟨p, hq⟩ | ⟨v, d, hdv, rfl⟩ | hproc
    · exact .inl ⟨p, Broker.mem_of_mem_take (hb ▸ hq)⟩
    · by_cases hv : v = w
      · rw [hv, hdel] at hdv
        cases hdv
        exact .inl ⟨q, hx⟩
      · exact other hv hdv
    · exact .inr (.inr (hp ▸ hproc))
  | @keep d hold hnew hb hp =>
    rcases hm with ⟨q, hq⟩ | ⟨v, e, hdv, rfl⟩ | hproc
    · exact .inl ⟨q, hb ▸ hq⟩
    · by_cases hv : v = w
      · rw [hv, hnew] at hdv
        cases hdv
        exact .inr (.inl ⟨w, d, hold, rfl⟩)
      · exact other hv hdv
    · rcases hp with hp | hp <;> rw [hp] at hproc
      · exact .inr (.inr hproc)
      · rcases List.mem_append.1 hproc with hproc | hproc
        · exact .inr (.inr hproc)
        · obtain rfl := List.mem_singleton.1 hproc
          exact .inr (.inl ⟨w, d, hold, rfl⟩)
  | @ack d _ hnew hb hp =>
    rcases hm with ⟨q, hq⟩ | ⟨v, e, hdv, rfl⟩ | hproc
    · exact .inl ⟨q, hb ▸ hq⟩
    · by_cases hv : v = w
      · rw [hv, hnew] at hdv
        cases hdv
      · exact other hv hdv
    · exact .inr (.inr (hp ▸ hproc))
  | @giveBack d dead hold hnew hb hp =>
    rcases hm with ⟨q, hq⟩ | ⟨v, e, hdv, rfl⟩ | hproc
    · rcases giveBack_mem (hb ▸ hq) with hq | rfl
      · exact .inl ⟨q, hq⟩
      · exact .inr (.inl ⟨w, d, hold, rfl⟩)
    · by_cases hv : v = w
      · rw [hv] at hdv
        rcases hnew with hnew | hnew <;> rw [hnew] at hdv <;> cases hdv
        exact .inr (.inl ⟨w, d, hold, rfl⟩)
      · exact other hv hdv
    · exact .inr (.inr (hp ▸ hproc))

/-! ## Publishers -/

/-- The claimed events that the publisher has yet to publish. -/
def Publisher.claims : Publisher → List ClaimedOutboxEvent
  | .idle => []
  | .working todo | .published _ todo | .raised _ _ todo => todo
  | .loaded e _ todo => e :: todo

/-- The row that the publisher has loaded. -/
def Publisher.row? : Publisher → Option OutboxEvent
  | .idle | .working _ => none
  | .loaded _ row _ | .published row _ | .raised row _ _ => some row

/-- A publisher's step moves at most one message: that of the event it has loaded, to the queue
that it is routed to. -/
theorem publisher_push {p : Nat} (h : PublisherChange env s p s') :
    s'.broker = s.broker ∨ ∃ e row todo queue, s.publishers p = .loaded e row todo ∧
      publishOutboxEvent e.eventType e.payload = some queue ∧
      s'.broker = s.broker.push queue e.message := by
  cases h with
  | claim | skip | load | recordPublished | recordRaised | stop => exact .inl rfl
  | publish hp hq => exact .inr ⟨_, _, _, _, hp, hq, rfl⟩
  | @raise e row todo error accepted hp =>
    simp only [afterRaise]
    split
    · next queue hq =>
      split
      · exact .inr ⟨e, row, todo, queue, hp, hq, rfl⟩
      · exact .inl rfl
    · exact .inl rfl

theorem publisher_broker {p : Nat} (h : PublisherChange env s p s') :
    s'.broker = s.broker ∨ ∃ e row todo queue, s.publishers p = .loaded e row todo ∧
      s'.broker = s.broker.push queue e.message := by
  refine (publisher_push h).imp_right ?_
  rintro ⟨e, row, todo, queue, hp, -, hb⟩
  exact ⟨e, row, todo, queue, hp, hb⟩

/-! ## Steps -/

/-- Who takes a step: a worker, a publisher, or a part that touches neither. -/
theorem step_party (h : step env s a = some s') :
    (∃ w b, a = .worker w b ∧ workerStep env s w b = some s') ∨
      (∃ p b, a = .publisher p b ∧ publisherStep env s p b = some s') ∨ ApiFrame s s' := by
  cases a with
  | worker w b => exact .inl ⟨w, b, rfl, h⟩
  | publisher p b => exact .inr (.inl ⟨p, b, rfl, h⟩)
  | request q b => exact .inr (.inr (requestStep_frame h).1)
  | cleaner c b => exact .inr (.inr (cleanerStep_frame h).1)
  | tick t =>
    simp only [step] at h
    split at h
    · cases h
      exact .inr (.inr ⟨rfl, rfl, rfl, rfl, rfl, rfl⟩)
    · cases h
  | redisExpire key =>
    cases h
    exact .inr (.inr ⟨rfl, rfl, rfl, rfl, rfl, rfl⟩)

theorem mem_queue_publisher {p : Nat} {q : QueueName} (h : PublisherChange env s p s')
    (hm : m ∈ s.broker.queues q) : m ∈ s'.broker.queues q := by
  rcases publisher_broker h with hb | ⟨e, row, todo, queue, -, hb⟩
  · exact hb ▸ hm
  · exact hb ▸ Broker.mem_push.2 (.inl hm)

/-- **No message is lost.** -/
theorem accounted_step (hlog : Logged s) (h : step env s a = some s') (hm : s.Accounted m) :
    s'.Accounted m := by
  rcases step_party h with ⟨w, b, -, hw⟩ | ⟨p, b, -, hp⟩ | hf
  · exact accounted_worker hlog (workerStep_frame hw).workers (workerStep_delivery hw) hm
  · have hf := publisherStep_frame hp
    rcases hm with (⟨q, hq⟩ | ⟨v, d, hd, hlive, heq⟩) | hproc
    · exact .inl (.inl ⟨q, mem_queue_publisher (publisherStep_cases hp) hq⟩)
    · exact .inl (.inr ⟨v, d, by rw [hf.workers]; exact hd, hlive, heq⟩)
    · exact .inr (hf.processed ▸ hproc)
  · simpa only [State.Accounted, State.Outstanding, hf.broker, hf.workers, hf.processed] using hm

/-- What is known after a step was known before, or a publisher had it loaded. -/
theorem known_of_step (h : step env s a = some s') (hm : s'.Known m) :
    s.Known m ∨ ∃ p e row todo, s.publishers p = .loaded e row todo ∧ m = e.message := by
  rcases step_party h with ⟨w, b, -, hw⟩ | ⟨p, b, -, hp⟩ | hf
  · exact .inl (known_worker (workerStep_frame hw).workers (workerStep_delivery hw) hm)
  · have hf := publisherStep_frame hp
    rcases hm with ⟨q, hq⟩ | ⟨v, d, hd, heq⟩ | hproc
    · rcases publisher_broker (publisherStep_cases hp) with hb | ⟨e, row, todo, queue, hload, hb⟩
      · exact .inl (.inl ⟨q, hb ▸ hq⟩)
      · rcases Broker.mem_push.1 (hb ▸ hq) with hq | ⟨-, rfl⟩
        · exact .inl (.inl ⟨q, hq⟩)
        · exact .inr ⟨p, e, row, todo, hload, rfl⟩
    · exact .inl (.inr (.inl ⟨v, d, by rw [← hf.workers]; exact hd, heq⟩))
    · exact .inl (.inr (.inr (hf.processed ▸ hproc)))
  · left
    simpa only [State.Known, hf.broker, hf.workers, hf.processed] using hm

theorem processed_of_step (h : step env s a = some s') :
    s'.processed = s.processed ∨ ∃ w d, (s.workers w).delivery? = some d ∧
      s'.processed = s.processed ++ [d.message] := by
  rcases step_party h with ⟨w, b, -, hw⟩ | ⟨p, b, -, hp⟩ | hf
  · cases workerStep_delivery hw with
    | get _ _ _ _ hp => exact .inl hp
    | keep hold _ _ hp => exact hp.imp_right fun hp => ⟨w, _, hold, hp⟩
    | ack _ _ _ hp => exact .inl hp
    | giveBack _ _ _ hp => exact .inl hp
  · exact .inl (publisherStep_frame hp).processed
  · exact .inl hf.processed

theorem mem_processed_step (h : step env s a = some s') (hm : m ∈ s.processed) :
    m ∈ s'.processed := by
  rcases processed_of_step h with hp | ⟨w, d, -, hp⟩
  · exact hp ▸ hm
  · exact hp ▸ List.mem_append_left _ hm

/-! ## The log of processed messages -/

theorem finished_worker {w : Nat} {b : WorkerAction} {d : Delivery}
    (h : workerStep env s w b = some s') (hd : s'.workers w = .finished d) :
    (∃ d₀, s.workers w = .finished d₀ ∧ d₀.message = d.message) ∨ d.message ∈ s'.processed := by
  have self {x : Worker} {t : State} (ht : t.workers = (s.setWorker w x).workers)
      (hx : t.workers w = .finished d) : x = .finished d := by rwa [ht, setWorker_self] at hx
  cases workerStep_cases h with
  | get | reserveRaises | send | answer | sendRaises | applyRaises | ack | reject | crash =>
    cases self rfl hd
  | @reserve e t₁ t₂ t₃ ids st out =>
    cases out with
    | none =>
      cases self rfl hd
      exact .inr (List.mem_append_right _ (List.mem_singleton_self _))
    | some n => cases self rfl hd
  | apply =>
    cases self rfl hd
    exact .inr (List.mem_append_right _ (List.mem_singleton_self _))
  | disconnect =>
    have hx := self rfl hd
    cases hw : s.workers w <;> rw [hw] at hx <;> cases hx
    exact .inl ⟨_, rfl, rfl⟩

theorem logged_step (hs : Logged s) (h : step env s a = some s') : Logged s' := by
  intro v d hd
  have old {e : Delivery} (he : s.workers v = .finished e) : e.message ∈ s'.processed :=
    mem_processed_step h (hs v e he)
  rcases step_party h with ⟨w, b, -, hw⟩ | ⟨p, b, -, hp⟩ | hf
  · by_cases hv : v = w
    · subst hv
      rcases finished_worker hw hd with ⟨e, he, heq⟩ | hmem
      · exact heq ▸ old he
      · exact hmem
    · exact old ((workerStep_frame hw).workers v hv ▸ hd)
  · exact old ((publisherStep_frame hp).workers ▸ hd)
  · exact old (hf.workers ▸ hd)

theorem logged_reach {ok : State → Action → Prop} (h : (machine env).Reach ok s) : Logged s := by
  refine Machine.Reach.induct ?_ (fun t a t' _ ht _ hstep => logged_step ht hstep) h
  rintro _ ⟨now, rfl⟩ w d hd
  cases hd

end NotificationSystem
