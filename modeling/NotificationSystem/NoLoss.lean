import NotificationSystem.Exclusivity
import NotificationSystem.Traced

/-!
# No notification is lost

Every open notification has an event that still has to do its work: a created or retry event
none of whose messages has been processed. What the status of that event says, and where its
messages are, gives the driver of the notification.

* `Delivered` — a published event has a message that is outstanding or processed.
* `Driven` — the event that drives a notification.
* `no_notification_lost` — the drivers an open notification may have.
-/

namespace NotificationSystem

open Lib

variable {env : Deployment} {s s' : State} {a : Action} {id : Uuid}

/-! ## Published events have messages -/

/-- Some message of the event has not been lost. -/
def State.Carried (s : State) (event : Uuid) : Prop := ∃ m, m.event = event ∧ s.Accounted m

/-- Where the publishers stand on `published`, and where the table says so, a message of the
event is accounted for. -/
structure Delivered (s : State) : Prop where
  events : ∀ e ∈ s.store.outbox, e.status = .published → s.Carried e.id
  publishers : ∀ p row todo, s.publishers p = .published row todo → s.Carried row.id

theorem carried_step (hlog : Logged s) (h : step env s a = some s') {event : Uuid}
    (hc : s.Carried event) : s'.Carried event := by
  obtain ⟨m, hm, hacc⟩ := hc
  exact ⟨m, hm, accounted_step hlog h hacc⟩

theorem publisher_published {p q : Nat} {row : OutboxEvent} {todo : List ClaimedOutboxEvent}
    (h : PublisherChange env s p s') (hpub : s'.publishers q = .published row todo) :
    s.publishers q = .published row todo ∨
      ∃ e queue, s.publishers q = .loaded e row todo ∧ e.message ∈ s'.broker.queues queue := by
  by_cases hq : q = p
  · subst hq
    cases h with
    | publish hp =>
      simp only [State.setPublisher, Function.update_self] at hpub
      cases hpub
      exact .inr ⟨_, _, hp, Broker.mem_push.2 (.inr ⟨rfl, rfl⟩)⟩
    | claim | skip | load | raise | recordPublished | recordRaised | stop =>
      simp [State.setPublisher] at hpub
  · cases h <;> left <;> simpa [State.setPublisher, hq] using hpub

theorem published_of_change (hr : Referenced s) (h : Change env s a s') {e' : OutboxEvent}
    (he' : e' ∈ s'.store.outbox) (hstatus : e'.status = .published) :
    (∃ e ∈ s.store.outbox, e.id = e'.id ∧ e.status = .published) ∨
      ∃ p row todo, s.publishers p = .published row todo ∧ row.id = e'.id := by
  cases event_of_change hr h he' with
  | kept hmem => exact .inl ⟨e', hmem, rfl, hstatus⟩
  | new hnew => cases hnew.pending.symm.trans hstatus
  | claimed => cases hstatus
  | published _ hp hid => exact .inr ⟨_, _, _, hp, hid.symm⟩
  | @raised e row p error todo hmem =>
    refine .inl ⟨e, hmem, rfl, ?_⟩
    -- the recorded status is `failed` or `pending`, so the stored one was left alone
    rcases writeBack_status row (row.markPublishFailed env.toSettings error) e with h | h
    · exact h.symm.trans hstatus
    · rcases markPublishFailed_status env.toSettings row error with h' | ⟨h', -⟩ <;>
        cases (h.trans h').symm.trans hstatus

theorem delivered_step (hr : Referenced s) (ht : Traced s) (hlog : Logged s) (hs : Delivered s)
    (h : step env s a = some s') : Delivered s' := by
  constructor
  · intro e he hstatus
    rcases published_of_change hr (change_of_step h) he hstatus with
      ⟨f, hf, hid, hpub⟩ | ⟨p, row, todo, hp, hid⟩
    · exact carried_step hlog h (hid ▸ hs.events f hf hpub)
    · exact carried_step hlog h (hid ▸ hs.publishers p row todo hp)
  · intro p row todo hp
    rcases publishers_of_step h with ⟨heq, -⟩ | ⟨q, hq⟩
    · exact carried_step hlog h (hs.publishers p row todo (heq ▸ hp))
    · rcases publisher_published hq hp with hp | ⟨e, queue, hload, hmem⟩
      · exact carried_step hlog h (hs.publishers p row todo hp)
      · exact ⟨e.message, (ht.loaded p e row todo hload).symm, .inl (.inl ⟨queue, hmem⟩)⟩

theorem delivered_reach {ok : State → Action → Prop} (h : (machine env).Reach ok s) :
    Delivered s := by
  refine Machine.Reach.induct ?_ (fun t a t' hreach ht _ hstep => ?_) h
  · rintro _ ⟨now, rfl⟩
    exact ⟨fun _ h => absurd h Table.not_mem_empty, fun _ _ _ h => by cases h⟩
  · exact delivered_step (referenced_reach hreach) (traced_reach hreach) (logged_reach hreach) ht
      hstep

/-! ## The event that drives a notification -/

/-- No message of the event has been processed. -/
def State.Undischarged (s : State) (e : OutboxEvent) : Prop := ∀ m ∈ s.processed, m.event ≠ e.id

/-- The event asks a worker to attempt the notification, and it has not been answered. -/
def State.Drives (s : State) (id : Uuid) (e : OutboxEvent) : Prop :=
  e ∈ s.store.outbox ∧ e.aggregateId = id ∧
    (e.eventType = .created ∨ e.eventType = .retryScheduled) ∧ s.Undischarged e

/-- Every open notification is driven. -/
def Driven (s : State) : Prop :=
  ∀ n ∈ s.store.notifications, n.isFinal = false → ∃ e, s.Drives n.id e

theorem known_processed {m : Message} (h : m ∈ s.processed) : s.Known m := .inr (.inr h)

theorem undischarged_of_fresh (ht : Traced s) {e : OutboxEvent} {outbox : Table OutboxEvent.id}
    (hins : s.store.outbox.insert? e = some outbox) {m : Message} (hm : s.Known m) :
    m.event ≠ e.id := by
  obtain ⟨f, hf, hid, -⟩ := ht.known m hm
  rw [← hid]
  exact (Table.insert?_eq_some hins).2 f hf

theorem Drives.mono (ht : Traced s) {e : OutboxEvent} (hext : s.store.Extends s'.store)
    (hd : s.Drives id e)
    (hp : s'.processed = s.processed ∨
      ∃ m, s.Known m ∧ m.payload.notificationId ≠ id ∧ s'.processed = s.processed ++ [m]) :
    ∃ e', s'.Drives id e' := by
  obtain ⟨he, hagg, htype, hund⟩ := hd
  obtain ⟨e', he', hsame, -⟩ := hext.outbox he
  refine ⟨e', he', (asWritten_aggregateId hsame).trans hagg, ?_, fun x hx => ?_⟩
  · rw [asWritten_eventType hsame]
    exact htype
  · rw [asWritten_id hsame]
    rcases hp with hp | ⟨m, hm, hne, hp⟩
    · exact hund x (hp ▸ hx)
    · rcases List.mem_append.1 (hp ▸ hx) with hx | hx
      · exact hund x hx
      · obtain rfl := List.mem_singleton.1 hx
        intro heq
        obtain ⟨f, hf, hid, -, hpayload, -⟩ := ht.known x hm
        obtain rfl := Table.eq_of_key hf he (hid.trans heq)
        exact hne (by rw [← hpayload, ht.aggregate f hf, hagg])

/-- **Why an ack in the lock-active branch is safe.** The event that covers the lock is not yet
due, so it is pending and no message announces it. -/
theorem covering_unclaimed (ht : Traced s) {n : Notification} {t₁ : Time} {e : OutboxEvent}
    (hnow : s.now ≤ t₁) (hlock : n.hasActiveProcessingLock t₁ = true)
    (he : e ∈ deferredRedeliveries s.store n) :
    e ∈ s.store.outbox ∧ e.aggregateId = n.id ∧ e.eventType = .retryScheduled ∧
      e.status = .pending ∧ ∀ m, s.store.Announced m → m.event ≠ e.id := by
  obtain ⟨hmem, hcov⟩ := List.mem_filter.1 he
  simp only [OutboxEvent.coversLock, Bool.and_eq_true, decide_eq_true_eq] at hcov
  obtain ⟨⟨⟨hagg, htype⟩, havail⟩, -⟩ := hcov
  simp only [Notification.hasActiveProcessingLock, Bool.and_eq_true] at hlock
  obtain ⟨lockUntil, hL, hactive⟩ := (Option.any_eq_true _ _).1 hlock.2
  rw [hL, Option.any_some] at havail
  obtain ⟨t, hat, hle⟩ := (Option.any_eq_true _ _).1 havail
  rw [decide_eq_true_eq] at hactive hle
  obtain ⟨hpending, hnone⟩ := unclaimed_of_future ht hmem hat
    (lt_of_le_of_lt hnow (lt_of_lt_of_le hactive hle))
  exact ⟨hmem, hagg, htype, hpending, hnone⟩

/-- A reserve that lets its message be acked leaves the notification final, or with a driver
that no message announces. -/
theorem reserved_driven (ht : Traced s) {payload : Payload} {t₁ t₂ t₃ : Time} {ids : EventIds}
    {st : Store} {n : Notification} (hnow : s.now ≤ t₁)
    (hres : Reserved env.toSettings s.store id payload t₁ t₂ t₃ ids st none)
    (hn : st.notifications.get id = some n) (hopen : n.isFinal = false) :
    ∃ e ∈ st.outbox, e.aggregateId = id ∧
      (e.eventType = .created ∨ e.eventType = .retryScheduled) ∧
        ∀ m, s.Known m → m.event ≠ e.id := by
  cases hres with
  | missing hnone => cases hnone.symm.trans hn
  | final hget hfin =>
    obtain rfl := Option.some.inj (hget.symm.trans hn)
    rw [hfin] at hopen
    cases hopen
  | @covered n₀ e hget _ hlock hone =>
    obtain ⟨hmem, hagg, htype, -, hnone⟩ :=
      covering_unclaimed ht hnow hlock (hone ▸ List.mem_singleton_self e)
    exact ⟨e, hmem, hagg.trans (Table.get_key hget), .inr htype,
      fun m hm => hnone m (ht.known m hm)⟩
  | deferred hget _ _ _ hins =>
    exact ⟨_, (Table.mem_insert? hins).2 (.inr rfl), (Table.get_key hget :), .inr rfl,
      fun m hm => undischarged_of_fresh ht hins hm⟩
  | @refused n₀ outbox hget _ _ _ hins =>
    have hget' : s.store.notifications.get n₀.id = some n₀ :=
      Table.get_of_mem (Table.mem_of_get hget)
    have hrow := (get_saveNotification_self n₀.droppedBeforeProvider hget').trans
      (congrArg some (writeBack_current rfl rfl rfl rfl rfl rfl rfl))
    rw [Table.get_key hget] at hrow
    obtain rfl := Option.some.inj (hrow.symm.trans hn)
    cases isFinal_droppedBeforeProvider.symm.trans hopen

/-- An apply leaves the notification final, or with a driver that no message announces. -/
theorem applied_driven (ht : Traced s) {payload : Payload} {loaded n : Notification}
    {result : ProviderResult} {t₁ t₂ : Time} {ids : EventIds} {st : Store}
    (happ : Applied env.toSettings s.store id payload loaded result t₁ t₂ ids st)
    (hsent : loaded.status = .sent) (hhas : s.store.Has loaded.id)
    (hn : st.notifications.get loaded.id = some n) (hopen : n.isFinal = false) :
    ∃ e ∈ st.outbox, e.aggregateId = loaded.id ∧
      (e.eventType = .created ∨ e.eventType = .retryScheduled) ∧
        ∀ m, s.Known m → m.event ≠ e.id := by
  obtain ⟨m, hm⟩ := hhas
  cases happ with
  | guarded hfin => simp [Notification.isFinal, hsent] at hfin
  | delivered =>
    obtain rfl := Option.some.inj ((get_saveNotification_self _ hm).symm.trans hn)
    cases (isFinal_markedDelivered hsent).symm.trans hopen
  | dropped =>
    obtain rfl := Option.some.inj ((get_saveNotification_self _ hm).symm.trans hn)
    cases (isFinal_droppedByResult hsent).symm.trans hopen
  | retried _ _ _ hins =>
    exact ⟨_, (Table.mem_insert? hins).2 (.inr rfl), rfl, .inr rfl,
      fun m hm => undischarged_of_fresh ht hins hm⟩

theorem reserved_get_ne {cfg : Settings} {st st' : Store} {payload : Payload} {t₁ t₂ t₃ : Time}
    {ids : EventIds} {out : Option Notification} {other : Uuid}
    (h : Reserved cfg st id payload t₁ t₂ t₃ ids st' out) (hne : other ≠ id) :
    st'.notifications.get other = st.notifications.get other := by
  cases h with
  | missing | final | covered | deferred => rfl
  | refused hget | attempt hget =>
    exact get_saveNotification_ne ((Table.get_key hget).symm ▸ hne)

theorem applied_get_ne {cfg : Settings} {st st' : Store} {payload : Payload}
    {loaded : Notification} {result : ProviderResult} {t₁ t₂ : Time} {ids : EventIds}
    {other : Uuid} (h : Applied cfg st id payload loaded result t₁ t₂ ids st')
    (hne : other ≠ loaded.id) : st'.notifications.get other = st.notifications.get other := by
  cases h with
  | guarded => rfl
  | delivered | retried | dropped => exact get_saveNotification_ne hne

theorem known_snoc {m m' : Message} (hm' : s.Known m') (hm : m ∈ s.processed ++ [m']) :
    s.Known m := by
  rcases List.mem_append.1 hm with hm | hm
  · exact known_processed hm
  · exact List.mem_singleton.1 hm ▸ hm'

theorem driven_reserve (ht : Traced s) (hs : Driven s) {w : Nat} {d : Delivery} {t₁ t₂ t₃ : Time}
    {ids : EventIds} {st : Store} {out : Option Notification}
    (hd : (s.workers w).delivery? = some d) (hnow : s.now ≤ t₁)
    (hres : Reserved env.toSettings s.store d.message.payload.notificationId d.message.payload
      t₁ t₂ t₃ ids st out)
    (hext : s.store.Extends (afterReserve s w d t₃ (.ok (st, out))).store) :
    Driven (afterReserve s w d t₃ (.ok (st, out))) := by
  intro n hn hopen
  have hget := Table.get_of_mem hn
  rw [afterReserve_store] at hget
  have hknown := known_of_delivery hd
  by_cases hid : n.id = d.message.payload.notificationId
  · cases out with
    | none =>
      rw [hid] at hget ⊢
      obtain ⟨e, he, hagg, htype, hund⟩ := reserved_driven ht hnow hres hget hopen
      exact ⟨e, he, hagg, htype, fun m hm => hund m (known_snoc hknown hm)⟩
    | some m =>
      cases hres with
      | @attempt n₀ lockUntil hget₀ hopen₀ =>
        have hkey : n₀.id = n.id := (Table.get_key hget₀).trans hid.symm
        obtain ⟨e, he⟩ := hs n₀ (Table.mem_of_get hget₀) hopen₀
        exact Drives.mono ht hext (hkey ▸ he) (.inl rfl)
  · rw [reserved_get_ne hres hid] at hget
    obtain ⟨e, he⟩ := hs n (Table.mem_of_get hget) hopen
    refine Drives.mono ht hext he ?_
    cases out with
    | none => exact .inr ⟨d.message, hknown, fun h => hid h.symm, rfl⟩
    | some m => exact .inl rfl

theorem driven_apply (hr : Referenced s) (ht : Traced s) (hsound : ∀ id, (s.lifecycle id).Sound)
    (hs : Driven s) {w : Nat} {d : Delivery} {n₀ : Notification} {result : ProviderResult}
    {t₁ t₂ : Time} {ids : EventIds} {st : Store} (hw : s.workers w = .responded d n₀ result)
    (happ : Applied env.toSettings s.store d.message.payload.notificationId d.message.payload n₀
      result t₁ t₂ ids st) (hext : s.store.Extends (afterApply s w d t₂ (.ok st)).store) :
    Driven (afterApply s w d t₂ (.ok st)) := by
  intro n hn hopen
  have hget := Table.get_of_mem hn
  rw [afterApply_store] at hget
  have hflight := congrArg Worker.flight? hw
  obtain ⟨hkey, hhas⟩ := hr.flights w _ hflight
  have hsent := ((hsound n₀.id).flights w _ (flightOf_eq_some.2 ⟨hflight, rfl⟩)).1
  have hknown : s.Known d.message := known_of_delivery (w := w) (by rw [hw]; rfl)
  by_cases hid : n.id = n₀.id
  · rw [hid] at hget ⊢
    obtain ⟨e, he, hagg, htype, hund⟩ := applied_driven ht happ hsent hhas hget hopen
    exact ⟨e, he, hagg, htype, fun m hm => hund m (known_snoc hknown hm)⟩
  · rw [applied_get_ne happ hid] at hget
    obtain ⟨e, he⟩ := hs n (Table.mem_of_get hget) hopen
    exact Drives.mono ht hext he
      (.inr ⟨d.message, hknown, fun h => hid (h.symm.trans hkey.symm), rfl⟩)

theorem driven_step (hr : Referenced s) (ht : Traced s) (hsound : ∀ id, (s.lifecycle id).Sound)
    (hs : Driven s) (h : Change env s a s') : Driven s' := by
  have hext := h.extends
  intro n hn hopen
  -- a step that neither writes the row nor processes a message
  have kept (hmem : n ∈ s.store.notifications) (hp : s'.processed = s.processed) :
      ∃ e, s'.Drives n.id e := by
    obtain ⟨e, he⟩ := hs n hmem hopen
    exact Drives.mono ht hext he (.inl hp)
  cases h with
  | quiet _ heq _ _ _ _ hp => exact kept (heq ▸ hn) hp
  | call | recordPublished | recordRaised => exact kept hn rfl
  | claim _ _ _ _ heq =>
    subst heq
    exact kept hn rfl
  | reserve hw hnow _ _ _ hres =>
    exact driven_reserve ht hs (by rw [hw]; rfl) hnow hres hext n hn hopen
  | apply hw _ _ _ happ => exact driven_apply hr ht hsound hs hw happ hext n hn hopen
  | @commit q r reservation ids stamps st response _ _ hfresh hcom =>
    obtain ⟨hnot, -, ho⟩ := commitBulk_delivery hcom
    rcases (Table.mem_insertAll? hnot).1 hn with hold | hnew
    · exact kept hold rfl
    · obtain ⟨i, recipientId, rfl, hevent, -⟩ := exists_createdEvent hnew
      refine ⟨_, (Table.mem_insertAll? ho).2 (.inr hevent), rfl, .inl rfl, fun m hm heq => ?_⟩
      obtain ⟨f, hf, hid, -⟩ := ht.known m (known_processed hm)
      exact newEvent_fresh hfresh hevent (heq ▸ hid ▸ mem_uuids_of_event hf)

theorem driven_reach {ok : State → Action → Prop} (h : (machine env).Reach ok s) : Driven s := by
  refine Machine.Reach.induct ?_ (fun t a t' hreach ht _ hstep => ?_) h
  · rintro _ ⟨now, rfl⟩ n hn
    exact absurd hn Table.not_mem_empty
  · exact driven_step (referenced_reach hreach) (traced_reach hreach) (sound_reach hreach) ht
      (change_of_step hstep)

/-! ## The drivers of an open notification -/

namespace State

/-- A created or retry event of the notification is pending or being published. -/
def HasLiveEvent (s : State) (id : Uuid) : Prop :=
  ∃ e ∈ s.store.outbox, e.aggregateId = id ∧
    (e.eventType = .created ∨ e.eventType = .retryScheduled) ∧
      (e.status = .pending ∨ e.status = .processing)

/-- A message for the notification is in a work queue, or delivered and not yet acked. -/
def HasMessage (s : State) (id : Uuid) : Prop :=
  ∃ m, m.payload.notificationId = id ∧
    (m ∈ s.broker.queues .high ∨ m ∈ s.broker.queues .low ∨
      ∃ w d, (s.workers w).delivery? = some d ∧ d.live = true ∧ d.message = m)

def HasFailedEvent (s : State) (id : Uuid) : Prop :=
  ∃ e ∈ s.store.outbox, e.aggregateId = id ∧ e.status = .failed

def HasDeadLetter (s : State) (id : Uuid) : Prop :=
  ∃ m ∈ s.broker.queues .dlq, m.payload.notificationId = id

end State

theorem driver_cases (ht : Traced s) (hd : Delivered s) {e : OutboxEvent} (he : s.Drives id e) :
    e.status = .pending ∨ e.status = .processing ∨ e.status = .failed ∨ s.HasMessage id ∨
      ∃ m ∈ s.broker.queues .dlq, m.event = e.id ∧ m.payload.notificationId = id := by
  obtain ⟨hmem, hagg, -, hund⟩ := he
  cases hstatus : e.status with
  | pending => exact .inl rfl
  | processing => exact .inr (.inl rfl)
  | failed => exact .inr (.inr (.inl rfl))
  | published =>
    obtain ⟨m, hevent, hacc⟩ := hd.events e hmem hstatus
    have hid : m.payload.notificationId = id := by
      obtain ⟨f, hf, hfid, -, hpayload, -⟩ := ht.known m (known_of_accounted hacc)
      obtain rfl := Table.eq_of_key hf hmem (hfid.trans hevent)
      rw [← hpayload, ht.aggregate f hf, hagg]
    right; right; right
    rcases hacc with (⟨q, hq⟩ | ⟨w, d, hw, hlive, heq⟩) | hproc
    · cases q with
      | high => exact .inl ⟨m, hid, .inl hq⟩
      | low => exact .inl ⟨m, hid, .inr (.inl hq)⟩
      | dlq => exact .inr ⟨m, hq, hevent, hid⟩
    · exact .inl ⟨m, hid, .inr (.inr ⟨w, d, hw, hlive, heq⟩)⟩
    · exact absurd hevent (hund m hproc)

theorem isFinal_of_open {n : Notification} (h : n.status = .queued ∨ n.status = .sent) :
    n.isFinal = false := by
  rcases h with h | h <;> simp [Notification.isFinal, h]

/-- **No notification is lost.** In every reachable state a queued or sent notification has a
live event, a message, a failed event or a dead letter. And an event that lets a reserve ack
its message is another one than the message's, and has not been published. -/
theorem no_notification_lost (h : (machine env).Reach Machine.Always s) :
    (∀ id n, s.store.notifications.get id = some n → n.status = .queued ∨ n.status = .sent →
      s.HasLiveEvent id ∨ s.HasMessage id ∨ s.HasFailedEvent id ∨ s.HasDeadLetter id) ∧
    ∀ w d n t₁ e, s.workers w = .received d →
      s.store.notifications.get d.message.payload.notificationId = some n → s.now ≤ t₁ →
      n.hasActiveProcessingLock t₁ = true → e ∈ deferredRedeliveries s.store n →
      e.id ≠ d.message.event ∧ e.status ≠ .published ∧ ∀ call ∈ s.publishes, call.event ≠ e.id := by
  have ht := traced_reach h
  constructor
  · intro id n hn hstatus
    obtain ⟨hmem, rfl⟩ := Table.get_eq_some.1 hn
    obtain ⟨e, he⟩ := driven_reach h n hmem (isFinal_of_open hstatus)
    obtain ⟨hout, hagg, htype, -⟩ := id he
    rcases driver_cases ht (delivered_reach h) he with hs | hs | hs | hs | ⟨m, hq, -, hid⟩
    · exact .inl ⟨e, hout, hagg, htype, .inl hs⟩
    · exact .inl ⟨e, hout, hagg, htype, .inr hs⟩
    · exact .inr (.inr (.inl ⟨e, hout, hagg, hs⟩))
    · exact .inr (.inl hs)
    · exact .inr (.inr (.inr ⟨m, hq, hid⟩))
  · intro w d n t₁ e hw _ hnow hlock he
    obtain ⟨-, -, -, hpending, hnone⟩ := covering_unclaimed ht hnow hlock he
    have hknown : s.Known d.message := .inr (.inl ⟨w, d, by rw [hw]; rfl, rfl⟩)
    refine ⟨fun heq => hnone d.message (ht.known _ hknown) heq.symm, ?_, fun call hcall heq => ?_⟩
    · rw [hpending]
      exact nofun
    · obtain ⟨m, hm, hann⟩ := ht.publishes call hcall
      exact hnone m hann (hm.trans heq)

/-- Worker 2 acks a duplicate because of the event, with id 5, that worker 1 has added for
another duplicate; that event is still to be published. -/
theorem no_notification_lost_deferred : ∃ (s : State) (n : Notification) (e : OutboxEvent),
    s.store.notifications.get 1 = some n ∧ n.status = .sent ∧
      s.workers 2 = .received ⟨Sample.message, .high, true⟩ ∧
      e ∈ deferredRedeliveries s.store n ∧ e.id = 5 ∧
      (s.HasLiveEvent 1 ∨ s.HasMessage 1 ∨ s.HasFailedEvent 1 ∨ s.HasDeadLetter 1) ∧
      e.id ≠ Sample.message.event ∧ e.status ≠ .published ∧
        ∀ call ∈ s.publishes, call.event ≠ e.id := by
  obtain ⟨s, hrun, hs⟩ := Machine.Run.exists_of_exec_always (machine Sample.env) (.initial 0)
    (Sample.attempt ++
      [.worker 0 (.disconnect false), .worker 1 (.get .high Sample.message),
        .worker 1 (.reserve 0 0 0 ⟨4, 5⟩), .worker 1 (.disconnect false),
        .worker 2 (.get .high Sample.message)])
    (fun s => s.workers 2 = .received ⟨Sample.message, .high, true⟩ &&
      (s.store.notifications.get 1).any fun n => n.status = .sent &&
        n.hasActiveProcessingLock s.now && (deferredRedeliveries s.store n).any (·.id = 5))
    (by decide)
  simp only [Bool.and_eq_true, decide_eq_true_eq, Option.any_eq_true, List.any_eq_true] at hs
  obtain ⟨hw, n, hn, ⟨hsent, hlock⟩, e, he, hid⟩ := hs
  have hall := no_notification_lost (.run (.init ⟨0, rfl⟩) hrun)
  exact ⟨s, n, e, hn, hsent, hw, he, hid, hall.1 1 n hn (.inr hsent),
    hall.2 2 _ n s.now e hw hn le_rfl hlock he⟩

end NotificationSystem
