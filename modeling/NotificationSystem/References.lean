import NotificationSystem.BulkRows
import NotificationSystem.Frames

/-!
# References between the tables

* `Extends` — the rows of a store persist in a later one, up to their bookkeeping columns.
* `KeepsCreated` — a notification's other columns stay as they were inserted.
* `Referenced` — every history row, event, provider call and attempt in flight belongs to a
  stored notification. `referenced_reach` shows it of every reachable state.
-/

namespace NotificationSystem

open Lib

variable {env : Deployment} {s s' : State} {a : Action}

/-! ## Rows persist -/

/-- The row as `add_outbox_event` inserted it, before any publisher touched it. -/
def OutboxEvent.asWritten (e : OutboxEvent) : OutboxEvent :=
  { e with
    status := .pending
    attempts := 0
    lastError := none
    lockedAt := none
    publishedAt := none }

section asWritten

variable {e e' : OutboxEvent} (h : e'.asWritten = e.asWritten)

include h

theorem asWritten_id : e'.id = e.id := by
  simpa [OutboxEvent.asWritten] using congrArg OutboxEvent.id h

theorem asWritten_aggregateId : e'.aggregateId = e.aggregateId := by
  simpa [OutboxEvent.asWritten] using congrArg OutboxEvent.aggregateId h

theorem asWritten_eventType : e'.eventType = e.eventType := by
  simpa [OutboxEvent.asWritten] using congrArg OutboxEvent.eventType h

theorem asWritten_payload : e'.payload = e.payload := by
  simpa [OutboxEvent.asWritten] using congrArg OutboxEvent.payload h

theorem asWritten_availableAt : e'.availableAt = e.availableAt := by
  simpa [OutboxEvent.asWritten] using congrArg OutboxEvent.availableAt h

end asWritten

@[simp] theorem asWritten_claimed (e : OutboxEvent) (t : Time) :
    (e.claimed t).asWritten = e.asWritten := rfl

@[simp] theorem asWritten_writeBack (l u e : OutboxEvent) :
    (OutboxEvent.writeBack l u e).asWritten = e.asWritten := rfl

/-- Every notification and event of `st` is still in `st'`; its attempts have not decreased. -/
structure Store.Extends (st st' : Store) : Prop where
  notifications : ∀ {id n}, st.notifications.get id = some n →
    ∃ n', st'.notifications.get id = some n' ∧ n.attempts ≤ n'.attempts
  outbox : ∀ {e}, e ∈ st.outbox →
    ∃ e' ∈ st'.outbox, e'.asWritten = e.asWritten ∧ e.attempts ≤ e'.attempts

theorem extends_of_eq {st st' : Store} (hn : st'.notifications = st.notifications)
    (ho : st'.outbox = st.outbox) : st.Extends st' where
  notifications h := ⟨_, hn ▸ h, le_rfl⟩
  outbox h := ⟨_, ho ▸ h, rfl, le_rfl⟩

/-- Writing back an instance that did not change its attempts keeps every row. -/
theorem get_saveNotification_extends {st : Store} (loaded updated : Notification)
    {id : Uuid} {n : Notification} (hcur : id = loaded.id → n.attempts ≤
      (Notification.writeBack loaded updated n).attempts)
    (h : st.notifications.get id = some n) :
    ∃ n', (st.saveNotification loaded updated).notifications.get id = some n' ∧
      n.attempts ≤ n'.attempts := by
  rw [get_saveNotification, h]
  split
  · next hid => exact ⟨_, rfl, hcur hid⟩
  · exact ⟨n, rfl, le_rfl⟩

theorem mem_insert?_extends {st : Store} {e : OutboxEvent} {outbox : Table OutboxEvent.id}
    (h : st.outbox.insert? e = some outbox) {f : OutboxEvent} (hf : f ∈ st.outbox) :
    ∃ f' ∈ outbox, f'.asWritten = f.asWritten ∧ f.attempts ≤ f'.attempts :=
  ⟨f, (Table.mem_insert? h).2 (.inl hf), rfl, le_rfl⟩

/-! ## The events that a worker adds -/

/-- The event that a reserve adds: a redelivery when the lock ends, or the failure of a
notification without attempts left. -/
inductive ReserveAdds (cfg : Settings) (st : Store) (id : Uuid) (payload : Payload)
    (t₁ t₂ t₃ : Time) (ids : EventIds) : OutboxEvent → Prop
  | deferred {n : Notification} : st.notifications.get id = some n → n.isFinal = false →
      n.hasActiveProcessingLock t₁ = true → deferredRedeliveries st n = [] →
      ReserveAdds cfg st id payload t₁ t₂ t₃ ids (deferredEvent n payload t₂ t₃ ids)
  | refused {n : Notification} : st.notifications.get id = some n → n.isFinal = false →
      n.hasActiveProcessingLock t₁ = false → cfg.maxRetries ≤ n.attempts →
      ReserveAdds cfg st id payload t₁ t₂ t₃ ids
        (failedEvent n.droppedBeforeProvider none (some maxRetriesMessage) t₂ t₃ ids)

/-- The event that an apply adds: a retry, or the failure of the notification. -/
inductive ApplyAdds (cfg : Settings) (payload : Payload) (loaded : Notification)
    (result : ProviderResult) (t₁ t₂ : Time) (ids : EventIds) : OutboxEvent → Prop
  | retried {delay : Int} {lockUntil : Time} : loaded.isFinal = false →
      (result.success && result.delivered) = false →
      retryUntil cfg loaded.attempts result t₁ = .ok (some (delay, lockUntil)) →
      ApplyAdds cfg payload loaded result t₁ t₂ ids
        (retryEvent (loaded.awaitingRetry result lockUntil) payload delay (some lockUntil)
          result.errorMessage none t₂ ids)
  | dropped : loaded.isFinal = false → (result.success && result.delivered) = false →
      retryUntil cfg loaded.attempts result t₁ = .ok none →
      ApplyAdds cfg payload loaded result t₁ t₂ ids
        (failedEvent (loaded.droppedByResult result) (some payload) result.errorMessage t₁ t₂ ids)

theorem reserved_adds {cfg : Settings} {st st' : Store} {id : Uuid} {payload : Payload}
    {t₁ t₂ t₃ : Time} {ids : EventIds} {out : Option Notification} {e : OutboxEvent}
    (h : Reserved cfg st id payload t₁ t₂ t₃ ids st' out) (he : e ∈ st'.outbox) :
    e ∈ st.outbox ∨ ReserveAdds cfg st id payload t₁ t₂ t₃ ids e := by
  cases h with
  | missing | final | covered | attempt => exact .inl he
  | deferred hget hopen hlock hcov hins =>
    refine ((Table.mem_insert? hins).1 he).imp_right fun heq => ?_
    rw [heq]
    exact .deferred hget hopen hlock hcov
  | refused hget hopen hlock hmax hins =>
    refine ((Table.mem_insert? hins).1 he).imp_right fun heq => ?_
    rw [heq]
    exact .refused hget hopen hlock hmax

theorem applied_adds {cfg : Settings} {st st' : Store} {id : Uuid} {payload : Payload}
    {loaded : Notification} {result : ProviderResult} {t₁ t₂ : Time} {ids : EventIds}
    {e : OutboxEvent} (h : Applied cfg st id payload loaded result t₁ t₂ ids st')
    (he : e ∈ st'.outbox) :
    e ∈ st.outbox ∨ ApplyAdds cfg payload loaded result t₁ t₂ ids e := by
  cases h with
  | guarded | delivered => exact .inl he
  | retried hopen hdel hretry hins =>
    refine ((Table.mem_insert? hins).1 he).imp_right fun heq => ?_
    rw [heq]
    exact .retried hopen hdel hretry
  | dropped hopen hdel hretry hins =>
    refine ((Table.mem_insert? hins).1 he).imp_right fun heq => ?_
    rw [heq]
    exact .dropped hopen hdel hretry

/-! ## What the transactions keep -/

theorem reserved_extends {cfg : Settings} {st st' : Store} {id : Uuid} {payload : Payload}
    {t₁ t₂ t₃ : Time} {ids : EventIds} {out : Option Notification}
    (h : Reserved cfg st id payload t₁ t₂ t₃ ids st' out) : st.Extends st' := by
  cases h with
  | missing => exact extends_of_eq rfl rfl
  | final => exact extends_of_eq rfl rfl
  | covered => exact extends_of_eq rfl rfl
  | deferred _ _ _ _ hins => exact ⟨fun h => ⟨_, h, le_rfl⟩, mem_insert?_extends hins⟩
  | refused hget _ _ _ hins =>
    refine ⟨fun h => get_saveNotification_extends _ _ (fun _ => ?_) h,
      mem_insert?_extends hins⟩
    simp [Notification.writeBack, Notification.droppedBeforeProvider]
  | @attempt n lockUntil hget _ _ _ _ =>
    refine ⟨fun {id' m} h => get_saveNotification_extends _ _ (fun hid => ?_) h,
      fun h => ⟨_, h, rfl, le_rfl⟩⟩
    -- the fresh session loaded the stored row, so the increment is written
    have hm : m = n := by
      have hnid := Table.get_key hget
      subst hid
      rw [hnid] at h
      exact Option.some.inj (h.symm.trans hget)
    simp [Notification.writeBack, Notification.reserved, hm]

theorem applied_extends {cfg : Settings} {st st' : Store} {id : Uuid} {payload : Payload}
    {loaded : Notification} {result : ProviderResult} {t₁ t₂ : Time} {ids : EventIds}
    (h : Applied cfg st id payload loaded result t₁ t₂ ids st') : st.Extends st' := by
  cases h with
  | guarded => exact extends_of_eq rfl rfl
  | delivered =>
    refine ⟨fun h => get_saveNotification_extends _ _ (fun _ => ?_) h,
      fun h => ⟨_, h, rfl, le_rfl⟩⟩
    simp [Notification.writeBack, Notification.markedDelivered]
  | retried _ _ _ hins =>
    refine ⟨fun h => get_saveNotification_extends _ _ (fun _ => ?_) h,
      mem_insert?_extends hins⟩
    simp [Notification.writeBack, Notification.awaitingRetry, Notification.withError]
  | dropped _ _ _ hins =>
    refine ⟨fun h => get_saveNotification_extends _ _ (fun _ => ?_) h,
      mem_insert?_extends hins⟩
    simp [Notification.writeBack, Notification.droppedByResult, Notification.withError]

theorem mem_claimRows {st : Store} {events : List OutboxEvent} {t : Time} {e : OutboxEvent} :
    e ∈ (claimRows st events t).outbox ↔
      ∃ f ∈ st.outbox, e = if f.id ∈ events.map (·.id) then f.claimed t else f := by
  rw [claimRows, Table.mem_modifyWhere]
  simp only [decide_eq_true_eq]

theorem claimRows_keeps {st : Store} {events : List OutboxEvent} {t : Time} {e : OutboxEvent}
    (he : e ∈ st.outbox) (hne : e.id ∉ events.map (·.id)) : e ∈ (claimRows st events t).outbox :=
  mem_claimRows.2 ⟨e, he, by rw [if_neg hne]⟩

theorem mem_saveOutboxEvent {st : Store} {loaded updated e : OutboxEvent} :
    e ∈ (st.saveOutboxEvent loaded updated).outbox ↔
      ∃ f ∈ st.outbox,
        e = if f.id = loaded.id then OutboxEvent.writeBack loaded updated f else f :=
  Table.mem_modify (OutboxEvent.writeBack_id loaded updated)

theorem saveOutboxEvent_keeps {st : Store} {loaded updated e : OutboxEvent} (he : e ∈ st.outbox)
    (hne : e.id ≠ loaded.id) : e ∈ (st.saveOutboxEvent loaded updated).outbox :=
  mem_saveOutboxEvent.2 ⟨e, he, by rw [if_neg hne]⟩

theorem claimRows_extends {st : Store} {events : List OutboxEvent} {t : Time} :
    st.Extends (claimRows st events t) where
  notifications h := ⟨_, h, le_rfl⟩
  outbox {e} he := by
    refine ⟨_, mem_claimRows.2 ⟨e, he, rfl⟩, ?_⟩
    split
    · exact ⟨rfl, Nat.le_succ _⟩
    · exact ⟨rfl, le_rfl⟩

theorem saveOutboxEvent_extends {st : Store} {loaded updated : OutboxEvent}
    (h : updated.attempts = loaded.attempts) : st.Extends (st.saveOutboxEvent loaded updated) where
  notifications h := ⟨_, h, le_rfl⟩
  outbox {e} he := by
    refine ⟨_, mem_saveOutboxEvent.2 ⟨e, he, rfl⟩, ?_⟩
    split
    · exact ⟨rfl, by simp [OutboxEvent.writeBack, h]⟩
    · exact ⟨rfl, le_rfl⟩

theorem commitBulk_extends {st st' : Store} {request : BulkNotificationRequest}
    {key requestHash : String} {reservation : Reservation} {ids : Nat → Uuid}
    {stamps : Nat → Time} {response : BulkNotificationResponse}
    (h : commitBulk st request key requestHash reservation ids stamps = .ok (st', response)) :
    st.Extends st' := by
  obtain ⟨hn, -, ho⟩ := commitBulk_delivery h
  exact ⟨fun hget => ⟨_, Table.get_insertAll? hn hget, le_rfl⟩,
    fun he => ⟨_, (Table.mem_insertAll? ho).2 (.inl he), rfl, le_rfl⟩⟩

theorem Change.extends (h : Change env s a s') : s.store.Extends s'.store := by
  cases h with
  | quiet _ hn _ ho _ _ => exact extends_of_eq hn ho
  | call => exact extends_of_eq rfl rfl
  | @reserve w d t₁ t₂ t₃ ids st out _ _ _ _ _ hres =>
    cases out <;> exact reserved_extends hres
  | apply _ _ _ _ happ => exact applied_extends happ
  | claim _ _ _ _ heq => subst heq; exact claimRows_extends
  | recordPublished => exact saveOutboxEvent_extends rfl
  | recordRaised => exact saveOutboxEvent_extends rfl
  | commit _ _ _ hcom => exact commitBulk_extends hcom

theorem Change.now_le (h : Change env s a s') : s.now ≤ s'.now := by
  cases h with
  | quiet h => exact h
  | call => exact le_rfl
  | @reserve w d t₁ t₂ t₃ ids st out _ h₁ h₂ h₃ =>
    cases out <;> exact h₁.trans (h₂.trans h₃)
  | apply _ h₁ h₂ => exact h₁.trans h₂
  | claim _ h₁ h₂ h₃ heq => subst heq; exact h₁.trans (h₂.trans h₃)
  | recordPublished _ h => exact h
  | recordRaised _ h => exact h
  | commit => exact le_rfl

/-! ## Columns that are never updated -/

/-- The row as `create_bulk` inserted it, before any worker touched it. -/
def Notification.asCreated (n : Notification) : Notification :=
  { n with
    status := .queued
    attempts := 0
    providerMessageId := none
    lastError := none
    processingLockUntil := none }

/-- A column that no worker writes is as it was created. -/
theorem Notification.column_eq {α : Type*} {n m : Notification} (h : n.asCreated = m.asCreated)
    (f : Notification → α) (hf : ∀ n, f n.asCreated = f n := by exact fun _ => rfl) :
    f n = f m := by
  rw [← hf n, h, hf m]

/-- The notifications of `st` are in `st'`, created as they were. -/
def Store.KeepsCreated (st st' : Store) : Prop :=
  ∀ id n, st.notifications.get id = some n →
    ∃ n', st'.notifications.get id = some n' ∧ n'.asCreated = n.asCreated

section keepsCreated

variable {cfg : Settings} {st st' st'' : Store} {id : Uuid} {payload : Payload}
  {t₁ t₂ t₃ : Time} {ids : EventIds} {loaded updated : Notification}

theorem Store.KeepsCreated.trans (h : st.KeepsCreated st') (h' : st'.KeepsCreated st'') :
    st.KeepsCreated st'' := by
  intro id n hn
  obtain ⟨n', hn', heq⟩ := h id n hn
  obtain ⟨n'', hn'', heq'⟩ := h' id n' hn'
  exact ⟨n'', hn'', heq'.trans heq⟩

theorem keepsCreated_of_eq (h : st'.notifications = st.notifications) : st.KeepsCreated st' :=
  fun _ n hn => ⟨n, h ▸ hn, rfl⟩

theorem keepsCreated_save : st.KeepsCreated (st.saveNotification loaded updated) := by
  intro id n hn
  rw [get_saveNotification, hn]
  split
  · exact ⟨_, rfl, rfl⟩
  · exact ⟨n, rfl, rfl⟩

theorem reserved_keepsCreated {out : Option Notification}
    (h : Reserved cfg st id payload t₁ t₂ t₃ ids st' out) : st.KeepsCreated st' := by
  cases h with
  | missing | final | covered | deferred => exact keepsCreated_of_eq rfl
  | refused | attempt => exact keepsCreated_save

theorem applied_keepsCreated {result : ProviderResult}
    (h : Applied cfg st id payload loaded result t₁ t₂ ids st') : st.KeepsCreated st' := by
  cases h with
  | guarded => exact keepsCreated_of_eq rfl
  | delivered | retried | dropped => exact keepsCreated_save

theorem commitBulk_keepsCreated {request : BulkNotificationRequest} {key requestHash : String}
    {reservation : Reservation} {uuids : Nat → Uuid} {stamps : Nat → Time}
    {response : BulkNotificationResponse}
    (h : commitBulk st request key requestHash reservation uuids stamps = .ok (st', response)) :
    st.KeepsCreated st' := by
  intro id n hget
  obtain ⟨hn, -, -⟩ := commitBulk_delivery h
  exact ⟨n, Table.get_insertAll? hn hget, rfl⟩

end keepsCreated

/-- **No step updates what identifies a notification**: its recipient, its channel, its message
and when it was created. -/
theorem Change.keepsCreated (h : Change env s a s') : s.store.KeepsCreated s'.store := by
  cases h with
  | quiet _ hn => exact keepsCreated_of_eq hn
  | call => exact keepsCreated_of_eq rfl
  | reserve _ _ _ _ _ hres =>
    rw [afterReserve_store]
    exact reserved_keepsCreated hres
  | apply _ _ _ _ happ => exact applied_keepsCreated happ
  | claim _ _ _ _ heq =>
    subst heq
    exact keepsCreated_of_eq rfl
  | recordPublished | recordRaised => exact keepsCreated_of_eq rfl
  | commit _ _ _ hcom => exact commitBulk_keepsCreated hcom

theorem keepsCreated_of_run {ok : State → Action → Prop} {as : List Action}
    (h : (machine env).Run ok s as s') : s.store.KeepsCreated s'.store := by
  induction h with
  | nil => exact keepsCreated_of_eq rfl
  | snoc _ _ hstep ih => exact ih.trans (change_of_step hstep).keepsCreated

/-! ## References -/

/-- The notification `id` is stored. -/
def Store.Has (st : Store) (id : Uuid) : Prop := ∃ n, st.notifications.get id = some n

theorem Store.Extends.has {st st' : Store} {id : Uuid} (h : st.Extends st') (hid : st.Has id) :
    st'.Has id := by
  obtain ⟨n, hn⟩ := hid
  obtain ⟨n', hn', -⟩ := h.notifications hn
  exact ⟨n', hn'⟩

/-- Whatever mentions a notification mentions a stored one. -/
structure Referenced (s : State) : Prop where
  history : ∀ row ∈ s.store.history, s.store.Has row.notificationId
  outbox : ∀ e ∈ s.store.outbox, s.store.Has e.aggregateId
  calls : ∀ call ∈ s.calls, s.store.Has call.idempotencyKey
  flights : ∀ w f, (s.workers w).flight? = some f →
    f.loaded.id = f.payload.notificationId ∧ s.store.Has f.loaded.id

theorem referenced_initial (now : Time) : Referenced (State.initial now) where
  history _ h := by cases h
  outbox _ h := absurd h Table.not_mem_empty
  calls _ h := by cases h
  flights _ _ h := by cases h

theorem reserved_referenced {cfg : Settings} {st st' : Store} {id : Uuid} {payload : Payload}
    {t₁ t₂ t₃ : Time} {ids : EventIds} {out : Option Notification}
    (h : Reserved cfg st id payload t₁ t₂ t₃ ids st' out) :
    (∀ row ∈ st'.history, row ∈ st.history ∨ st.Has row.notificationId) ∧
      (∀ e ∈ st'.outbox, e ∈ st.outbox ∨ st.Has e.aggregateId) ∧
        ∀ n, out = some n → n.id = id ∧ st.Has id := by
  have loaded {n : Notification} (hget : st.notifications.get id = some n) : st.Has n.id :=
    ⟨n, Table.get_of_mem (Table.mem_of_get hget)⟩
  refine ⟨fun row hrow => ?_, fun e he => ?_, fun m hm => ?_⟩
  · cases h with
    | missing | final | covered | deferred => exact .inl hrow
    | refused hget | attempt hget =>
      refine (List.mem_append.1 hrow).imp_right fun hnew => ?_
      rw [List.mem_singleton.1 hnew]
      exact loaded hget
  · refine (reserved_adds h he).imp_right fun hadds => ?_
    cases hadds with
    | deferred hget => exact loaded hget
    | @refused n hget =>
      have hhas : st.Has n.id := loaded hget
      exact hhas
  · cases h with
    | missing | final | covered | deferred | refused => cases hm
    | attempt hget =>
      cases hm
      exact ⟨(Table.get_key hget :), _, hget⟩

theorem applied_referenced {cfg : Settings} {st st' : Store} {id : Uuid} {payload : Payload}
    {loaded : Notification} {result : ProviderResult} {t₁ t₂ : Time} {ids : EventIds}
    (h : Applied cfg st id payload loaded result t₁ t₂ ids st') :
    (∀ row ∈ st'.history, row ∈ st.history ∨ row.notificationId = loaded.id) ∧
      ∀ e ∈ st'.outbox, e ∈ st.outbox ∨ e.aggregateId = loaded.id := by
  refine ⟨fun row hrow => ?_, fun e he => ?_⟩
  · cases h with
    | guarded | retried => exact .inl hrow
    | delivered | dropped =>
      refine (List.mem_append.1 hrow).imp_right fun hnew => ?_
      rw [List.mem_singleton.1 hnew]
  · refine (applied_adds h he).imp_right fun hadds => ?_
    cases hadds with
    | retried | dropped => rfl

/-- The events of `st'` are those of `st`, up to their bookkeeping columns. -/
theorem referenced_of_events {s s' : State} (hs : Referenced s)
    (hext : s.store.Extends s'.store) (hh : s'.store.history = s.store.history)
    (ho : ∀ e' ∈ s'.store.outbox, ∃ e ∈ s.store.outbox, e'.asWritten = e.asWritten)
    (hc : s'.calls = s.calls)
    (hf : ∀ w f', (s'.workers w).flight? = some f' →
      ∃ f, (s.workers w).flight? = some f ∧ f.Continues f') : Referenced s' where
  history row hrow := hext.has (hs.history row (hh ▸ hrow))
  outbox e' he' := by
    obtain ⟨e, he, heq⟩ := ho e' he'
    rw [asWritten_aggregateId heq]
    exact hext.has (hs.outbox e he)
  calls call hcall := hext.has (hs.calls call (hc ▸ hcall))
  flights w f' hf' := by
    obtain ⟨f, hw, hl, hp, -⟩ := hf w f' hf'
    rw [hl, hp]
    exact ⟨(hs.flights w f hw).1, hext.has (hs.flights w f hw).2⟩

theorem mem_saved_asWritten {st : Store} {loaded updated e' : OutboxEvent}
    (h : e' ∈ (st.saveOutboxEvent loaded updated).outbox) :
    ∃ e ∈ st.outbox, e'.asWritten = e.asWritten := by
  obtain ⟨e, he, rfl⟩ := mem_saveOutboxEvent.1 h
  refine ⟨e, he, ?_⟩
  split <;> rfl

theorem mem_claimed_asWritten {st : Store} {events : List OutboxEvent} {t : Time}
    {e' : OutboxEvent} (h : e' ∈ (claimRows st events t).outbox) :
    ∃ e ∈ st.outbox, e'.asWritten = e.asWritten := by
  obtain ⟨e, he, rfl⟩ := mem_claimRows.1 h
  refine ⟨e, he, ?_⟩
  split <;> rfl

theorem referenced_step (hs : Referenced s) (h : Change env s a s') : Referenced s' := by
  have hext := h.extends
  cases h with
  | quiet _ hn hh ho hc hf =>
    exact referenced_of_events hs hext hh (fun e he => ⟨e, ho ▸ he, rfl⟩) hc hf
  | @call w d n hw =>
    have hn := hs.flights w _ (congrArg Worker.flight? hw)
    refine ⟨hs.history, hs.outbox, fun c hc => ?_, fun v f hv => ?_⟩
    · rcases List.mem_append.1 hc with hc | hc
      · exact hs.calls c hc
      · obtain rfl := List.mem_singleton.1 hc
        exact hn.2
    · simp only [calling_flight] at hv
      split at hv
      · cases hv
        exact hn
      · exact hs.flights v f hv
  | @reserve w d t₁ t₂ t₃ ids st out hw _ _ _ _ hres =>
    obtain ⟨hhist, hout, hsome⟩ := reserved_referenced hres
    refine ⟨fun row hrow => hext.has ?_, fun e he => hext.has ?_, fun c hc => hext.has ?_,
      fun v f hv => ?_⟩
    · exact (hhist row (by simpa using hrow)).elim (hs.history row) id
    · exact (hout e (by simpa using he)).elim (hs.outbox e) id
    · exact hs.calls c (by simpa using hc)
    · rw [afterReserve_flight] at hv
      split at hv
      · obtain ⟨n, rfl, rfl⟩ := Option.map_eq_some_iff.1 hv
        obtain ⟨hid, hhas⟩ := hsome n rfl
        exact ⟨hid, hext.has (hid ▸ hhas)⟩
      · exact ⟨(hs.flights v f hv).1, hext.has (hs.flights v f hv).2⟩
  | @apply w d n result t₁ t₂ ids st hw _ _ _ happ =>
    obtain ⟨hhist, hout⟩ := applied_referenced happ
    have hn := hs.flights w _ (congrArg Worker.flight? hw)
    refine ⟨fun row hrow => hext.has ?_, fun e he => hext.has ?_,
      fun c hc => hext.has (hs.calls c hc), fun v f hv => ?_⟩
    · exact (hhist row hrow).elim (hs.history row) fun h => h ▸ hn.2
    · exact (hout e he).elim (hs.outbox e) fun h => h ▸ hn.2
    · rw [afterApply_flight] at hv
      split at hv
      · cases hv
      · exact ⟨(hs.flights v f hv).1, hext.has (hs.flights v f hv).2⟩
  | claim _ _ _ _ heq =>
    subst heq
    exact referenced_of_events hs hext rfl (fun e => mem_claimed_asWritten) rfl
      flight_same
  | recordPublished =>
    exact referenced_of_events hs hext rfl (fun e => mem_saved_asWritten) rfl flight_same
  | recordRaised =>
    exact referenced_of_events hs hext rfl (fun e => mem_saved_asWritten) rfl flight_same
  | @commit q r reservation ids stamps st response _ _ _ hcom =>
    obtain ⟨-, hh, -⟩ := commitBulk_delivery hcom
    have hnew : ∀ n ∈ newNotifications r.body ids stamps, st.Has n.id :=
      fun n hmem => ⟨n, commitBulk_get hcom hmem⟩
    refine ⟨fun row hrow => ?_, fun e he => ?_, fun c hc => hext.has (hs.calls c hc),
      fun w f hf => ⟨(hs.flights w f hf).1, hext.has (hs.flights w f hf).2⟩⟩
    · rw [show _ = s.store.history ++ _ from hh] at hrow
      rcases List.mem_append.1 hrow with hrow | hrow
      · exact hext.has (hs.history row hrow)
      · obtain ⟨i, rcp, hmem, rfl⟩ := mem_newHistory hrow
        exact hnew _ hmem
    · rcases commitBulk_event hcom he with he | ⟨i, rcp, hmem, rfl⟩
      · exact hext.has (hs.outbox e he)
      · exact hnew _ hmem

/-- **Every reachable state is referenced.** -/
theorem referenced_reach {ok : State → Action → Prop} (h : (machine env).Reach ok s) :
    Referenced s := by
  refine Machine.Reach.induct ?_ (fun t a t' _ ht _ hstep => ?_) h
  · rintro _ ⟨now, rfl⟩
    exact referenced_initial now
  · exact referenced_step ht (change_of_step hstep)

end NotificationSystem
