import NotificationSystem.Lifecycle

/-!
# The system simulates every lifecycle

* `lifecycle_step` — every step of the system is a step of each notification's lifecycle.
* `lifecycle_induct`, `lifecycle_run` — the invariant rules that follow.
* `Lifecycle.Sound` — a first invariant, of statuses, attempts and locks.
-/

namespace NotificationSystem

open Lib

variable {env : Deployment} {s s' : State} {a : Action} {id : Uuid}

/-! ## What the writes do to each notification -/

section stores

variable {st : Store} {loaded updated n : Notification} {row : NotificationStatusHistory}
  {e : OutboxEvent} {outbox : Table OutboxEvent.id}

theorem historyOf_addHistory_self (h : row.notificationId = id) :
    (st.addHistory row).historyOf id = st.historyOf id ++ [row] := by
  simp [Store.historyOf, Store.addHistory, List.filter_append, h]

theorem historyOf_addHistory_ne (h : row.notificationId ≠ id) :
    (st.addHistory row).historyOf id = st.historyOf id := by
  simp [Store.historyOf, Store.addHistory, List.filter_append, h]

theorem filter_insert?_self (hins : st.outbox.insert? e = some outbox) (h : e.aggregateId = id) :
    outbox.rows.filter (fun e => e.aggregateId = id) = st.eventsOf id ++ [e] := by
  simp [Store.eventsOf, (Table.insert?_eq_some hins).1, List.filter_append, h]

theorem filter_insert?_ne (hins : st.outbox.insert? e = some outbox) (h : e.aggregateId ≠ id) :
    outbox.rows.filter (fun e => e.aggregateId = id) = st.eventsOf id := by
  simp [Store.eventsOf, (Table.insert?_eq_some hins).1, List.filter_append, h]

theorem get_saveNotification_self (updated : Notification)
    (h : st.notifications.get loaded.id = some n) :
    (st.saveNotification loaded updated).notifications.get loaded.id =
      some (Notification.writeBack loaded updated n) := by
  rw [get_saveNotification, if_pos rfl, h]
  rfl

theorem get_saveNotification_ne (h : id ≠ loaded.id) :
    (st.saveNotification loaded updated).notifications.get id = st.notifications.get id := by
  rw [get_saveNotification, if_neg h]

/-- A session that loaded the stored row writes the instance it leaves. -/
theorem writeBack_current (hid : updated.id = n.id) (hb : updated.batchId = n.batchId)
    (hs : updated.subscriberId = n.subscriberId) (hc : updated.channel = n.channel)
    (ht : updated.type = n.type) (hm : updated.message = n.message)
    (hcr : updated.createdAt = n.createdAt) : Notification.writeBack n updated n = updated := by
  cases n
  cases updated
  simp_all [Notification.writeBack]

@[simp] theorem writeBack_markedDelivered (result : ProviderResult) :
    Notification.writeBack n (n.markedDelivered result) n = n.markedDelivered result :=
  writeBack_current rfl rfl rfl rfl rfl rfl rfl

@[simp] theorem writeBack_awaitingRetry (result : ProviderResult) (lockUntil : Time) :
    Notification.writeBack n (n.awaitingRetry result lockUntil) n =
      n.awaitingRetry result lockUntil :=
  writeBack_current rfl rfl rfl rfl rfl rfl rfl

@[simp] theorem writeBack_droppedByResult (result : ProviderResult) :
    Notification.writeBack n (n.droppedByResult result) n = n.droppedByResult result :=
  writeBack_current rfl rfl rfl rfl rfl rfl rfl

theorem isFinal_droppedBeforeProvider : n.droppedBeforeProvider.isFinal = true := by
  simp [Notification.isFinal, Notification.droppedBeforeProvider]

theorem isFinal_markedDelivered {result : ProviderResult} (h : loaded.status = .sent) :
    (Notification.writeBack loaded (loaded.markedDelivered result) n).isFinal = true := by
  simp [Notification.isFinal, Notification.writeBack, Notification.markedDelivered, writeColumn, h]

theorem isFinal_droppedByResult {result : ProviderResult} (h : loaded.status = .sent) :
    (Notification.writeBack loaded (loaded.droppedByResult result) n).isFinal = true := by
  simp [Notification.isFinal, Notification.writeBack, Notification.droppedByResult,
    Notification.withError, writeColumn, h]

theorem isFinal_awaitingRetry {result : ProviderResult} {lockUntil : Time} :
    (Notification.writeBack loaded (loaded.awaitingRetry result lockUntil) n).isFinal =
      n.isFinal := by
  simp [Notification.isFinal, Notification.writeBack, Notification.awaitingRetry,
    Notification.withError]

theorem commit_historyOf {rows : List NotificationStatusHistory} {st' : Store}
    (h : st'.history = st.history ++ rows) :
    st'.historyOf id = st.historyOf id ++ rows.filter (·.notificationId = id) := by
  rw [Store.historyOf, h, List.filter_append, Store.historyOf]

theorem commit_eventsOf {rows : List OutboxEvent} {st' : Store}
    (h : st.outbox.insertAll? rows = some st'.outbox) :
    st'.eventsOf id = st.eventsOf id ++ rows.filter (·.aggregateId = id) := by
  rw [Store.eventsOf, Table.insertAll?_rows h, List.filter_append, Store.eventsOf]

theorem eventsOf_map_asWritten {f : OutboxEvent → OutboxEvent} {st' : Store}
    (hf : ∀ e, (f e).asWritten = e.asWritten) (h : st'.outbox.rows = st.outbox.rows.map f) :
    (st'.eventsOf id).map (·.asWritten) = (st.eventsOf id).map (·.asWritten) := by
  have hagg : ∀ e, (f e).aggregateId = e.aggregateId := fun e => asWritten_aggregateId (hf e)
  simp [Store.eventsOf, h, List.filter_map, Function.comp_def, hagg, hf]

end stores

/-! ## Simulation -/

/-- A step that does not concern the notification. -/
theorem step_quiet (hnow : s.now ≤ s'.now)
    (hrow : s'.store.notifications.get id = s.store.notifications.get id)
    (hh : s'.store.historyOf id = s.store.historyOf id)
    (he : (s'.store.eventsOf id).map (·.asWritten) = (s.store.eventsOf id).map (·.asWritten))
    (hc : s'.callsOf id = s.callsOf id)
    (hf : ∀ w f', (s'.workers w).flightOf id = some f' →
      ∃ f, (s.workers w).flightOf id = some f ∧ f.Continues f') :
    Lifecycle.Step env.toSettings (s.lifecycle id) a (s'.lifecycle id) :=
  .quiet hnow hrow hh he hc hf

theorem flightOf_continues
    (hf : ∀ w f', (s'.workers w).flight? = some f' →
      ∃ f, (s.workers w).flight? = some f ∧ f.Continues f')
    (w : Nat) (f' : Flight) (h : (s'.workers w).flightOf id = some f') :
    ∃ f, (s.workers w).flightOf id = some f ∧ f.Continues f' := by
  obtain ⟨hf', hid⟩ := flightOf_eq_some.1 h
  obtain ⟨f, hw, hcont⟩ := hf w f' hf'
  exact ⟨f, flightOf_eq_some.2 ⟨hw, hcont.1 ▸ hid⟩, hcont⟩

theorem continues_of_eq (h : (s'.lifecycle id).flights = (s.lifecycle id).flights) (v : Nat)
    (f' : Flight) (hv : (s'.workers v).flightOf id = some f') :
    ∃ f, (s.workers v).flightOf id = some f ∧ f.Continues f' :=
  ⟨f', (congrFun h v).symm.trans hv, continues_refl f'⟩

theorem continues_of_ended {w : Nat}
    (h : (s'.lifecycle id).flights = Function.update (s.lifecycle id).flights w none) (v : Nat)
    (f' : Flight) (hv : (s'.workers v).flightOf id = some f') :
    ∃ f, (s.workers v).flightOf id = some f ∧ f.Continues f' :=
  ⟨f', (of_update_none ((congrFun h v).symm.trans hv)).2, continues_refl f'⟩

theorem call_lifecycle {w : Nat} {d : Delivery} {n : Notification}
    (hw : s.workers w = .reserved d n) :
    Lifecycle.Step env.toSettings (s.lifecycle id) (.worker w .send)
      (State.lifecycle { s.setWorker w (.calling d n) with calls := s.calls ++ [providerCall n] }
        id) := by
  by_cases hid : n.id = id
  · have hf : (s.lifecycle id).flights w = some { loaded := n, payload := d.message.payload } :=
      flightOf_eq_some.2 ⟨congrArg Worker.flight? hw, hid⟩
    have heq : State.lifecycle { s.setWorker w (.calling d n) with
        calls := s.calls ++ [providerCall n] } id =
        { s.lifecycle id with
          calls := (s.lifecycle id).calls ++ [providerCall n]
          flights := Function.update (s.lifecycle id).flights w
            (some { loaded := n, payload := d.message.payload, called := true }) } := by
      refine Lifecycle.ext rfl rfl rfl rfl ?_ (funext fun v => ?_)
      · simp [State.lifecycle, State.callsOf, providerCall, List.filter_append, hid]
      · simp only [State.lifecycle, Worker.flightOf, calling_flight, Function.update_apply]
        split <;> simp [hid]
    rw [heq]
    exact .call hf rfl rfl
  · refine step_quiet le_rfl rfl rfl rfl ?_ fun v f' hv => ?_
    · simp [State.callsOf, providerCall, List.filter_append, hid]
    · obtain ⟨hf', hid'⟩ := flightOf_eq_some.1 hv
      simp only [calling_flight] at hf'
      split at hf'
      · cases hf'
        exact absurd hid' hid
      · exact ⟨f', flightOf_eq_some.2 ⟨hf', hid'⟩, continues_refl f'⟩

section reserve

variable {w : Nat} {d : Delivery} {n : Notification} {t₁ t₂ t₃ : Time} {ids : EventIds}
  {st : Store} {out : Option Notification}

/-- A reserve that returns no notification leaves every attempt in flight alone. -/
theorem afterReserve_flights_none (hw : s.workers w = .received d) :
    ((afterReserve s w d t₃ (.ok (st, none))).lifecycle id).flights =
      (s.lifecycle id).flights := by
  funext v
  simp only [State.lifecycle, Worker.flightOf, afterReserve_flight]
  split
  · next hv => rw [hv, hw]; rfl
  · rfl

theorem afterReserve_flights_self (hid : n.id = id) :
    ((afterReserve s w d t₃ (.ok (st, some n))).lifecycle id).flights =
      Function.update (s.lifecycle id).flights w
        (some { loaded := n, payload := d.message.payload }) := by
  funext v
  simp only [State.lifecycle, Worker.flightOf, afterReserve_flight, Function.update_apply]
  split
  · simp [hid]
  · rfl

theorem afterReserve_flights_ne (hid : n.id ≠ id) :
    ((afterReserve s w d t₃ (.ok (st, some n))).lifecycle id).flights =
      Function.update (s.lifecycle id).flights w none := by
  funext v
  simp only [State.lifecycle, Worker.flightOf, afterReserve_flight, Function.update_apply]
  split
  · simp [hid]
  · rfl

theorem reserve_elsewhere (hw : s.workers w = .received d) (hnow : s.now ≤ t₃)
    (hid : d.message.payload.notificationId ≠ id)
    (hres : Reserved env.toSettings s.store d.message.payload.notificationId d.message.payload
      t₁ t₂ t₃ ids st out) :
    Lifecycle.Step env.toSettings (s.lifecycle id) a
      ((afterReserve s w d t₃ (.ok (st, out))).lifecycle id) := by
  have hcalls : (afterReserve s w d t₃ (.ok (st, out))).callsOf id = s.callsOf id := by
    simp [State.callsOf]
  cases hres with
  | missing | final | covered =>
    exact step_quiet hnow rfl rfl rfl hcalls (continues_of_eq (afterReserve_flights_none hw))
  | deferred hget _ _ _ hins =>
    rw [← Table.get_key hget] at hid
    exact step_quiet hnow rfl rfl (congrArg _ (filter_insert?_ne hins hid)) hcalls
      (continues_of_eq (afterReserve_flights_none hw))
  | refused hget _ _ _ hins =>
    rw [← Table.get_key hget] at hid
    exact step_quiet hnow (get_saveNotification_ne hid.symm) (historyOf_addHistory_ne hid)
      (congrArg _ (filter_insert?_ne hins hid)) hcalls
      (continues_of_eq (afterReserve_flights_none hw))
  | attempt hget =>
    rw [← Table.get_key hget] at hid
    exact step_quiet hnow (get_saveNotification_ne hid.symm) (historyOf_addHistory_ne hid) rfl
      hcalls (continues_of_ended (afterReserve_flights_ne hid))

theorem reserve_itself (hw : s.workers w = .received d) (h₁ : s.now ≤ t₁) (h₂ : t₁ ≤ t₂)
    (h₃ : t₂ ≤ t₃) (hid : d.message.payload.notificationId = id)
    (hres : Reserved env.toSettings s.store id d.message.payload t₁ t₂ t₃ ids st out) :
    Lifecycle.Step env.toSettings (s.lifecycle id) (.worker w (.reserve t₁ t₂ t₃ ids))
      ((afterReserve s w d t₃ (.ok (st, out))).lifecycle id) := by
  have hnow : s.now ≤ t₃ := h₁.trans (h₂.trans h₃)
  have hcalls : (afterReserve s w d t₃ (.ok (st, out))).callsOf id = s.callsOf id := by
    simp [State.callsOf]
  cases hres with
  | missing | final | covered =>
    exact step_quiet hnow rfl rfl rfl hcalls (continues_of_eq (afterReserve_flights_none hw))
  | @deferred n outbox hget hfin hlock hcov hins =>
    have heq : (afterReserve s w d t₃ (.ok ({ s.store with outbox }, none))).lifecycle id =
        { s.lifecycle id with
          now := t₃
          events := (s.lifecycle id).events ++ [deferredEvent n d.message.payload t₂ t₃ ids] } :=
      Lifecycle.ext rfl rfl rfl (filter_insert?_self hins (Table.get_key hget :)) hcalls
        (afterReserve_flights_none hw)
    rw [heq]
    refine .defer h₁ h₂ h₃ hget hfin hlock fun e he => ?_
    simpa using List.filter_eq_nil_iff.1 hcov e (List.mem_of_mem_filter he)
  | @refused n outbox hget hfin hlock hmax hins =>
    obtain rfl := Table.get_key hget
    have heq : (afterReserve s w d t₃ (.ok ({ (s.store.saveNotification n
          n.droppedBeforeProvider).addHistory ⟨n.id, .dropped, some maxRetriesMessage, t₃⟩ with
          outbox }, none))).lifecycle n.id =
        { s.lifecycle n.id with
          now := t₃
          row := some n.droppedBeforeProvider
          history := (s.lifecycle n.id).history ++ [⟨n.id, .dropped, some maxRetriesMessage, t₃⟩]
          events := (s.lifecycle n.id).events ++
            [failedEvent n.droppedBeforeProvider none (some maxRetriesMessage) t₂ t₃ ids] } := by
      refine Lifecycle.ext rfl ?_ (historyOf_addHistory_self rfl) (filter_insert?_self hins rfl)
        hcalls (afterReserve_flights_none hw)
      exact (get_saveNotification_self _ hget).trans
        (congrArg some (writeBack_current rfl rfl rfl rfl rfl rfl rfl))
    rw [heq]
    exact .refuse h₁ h₂ h₃ hget hfin hlock hmax
  | @attempt n lockUntil hget hfin hlock hmax hadd =>
    obtain rfl := Table.get_key hget
    have heq : (afterReserve s w d t₃ (.ok ((s.store.saveNotification n
          (n.reserved lockUntil)).addHistory ⟨n.id, .sent, none, t₃⟩,
          some (n.reserved lockUntil)))).lifecycle n.id =
        { s.lifecycle n.id with
          now := t₃
          row := some (n.reserved lockUntil)
          history := (s.lifecycle n.id).history ++ [⟨n.id, .sent, none, t₃⟩]
          flights := Function.update (s.lifecycle n.id).flights w
            (some { loaded := n.reserved lockUntil, payload := d.message.payload }) } := by
      refine Lifecycle.ext rfl ?_ (historyOf_addHistory_self rfl) rfl hcalls
        (afterReserve_flights_self rfl)
      exact (get_saveNotification_self _ hget).trans
        (congrArg some (writeBack_current rfl rfl rfl rfl rfl rfl rfl))
    rw [heq]
    exact .reserve h₁ h₂ h₃ hget hfin hlock hmax hadd (flightOf_of_none (by rw [hw]; rfl))

theorem reserve_lifecycle (hw : s.workers w = .received d) (h₁ : s.now ≤ t₁) (h₂ : t₁ ≤ t₂)
    (h₃ : t₂ ≤ t₃)
    (hres : Reserved env.toSettings s.store d.message.payload.notificationId d.message.payload
      t₁ t₂ t₃ ids st out) :
    Lifecycle.Step env.toSettings (s.lifecycle id) (.worker w (.reserve t₁ t₂ t₃ ids))
      ((afterReserve s w d t₃ (.ok (st, out))).lifecycle id) := by
  by_cases hid : d.message.payload.notificationId = id
  · exact reserve_itself hw h₁ h₂ h₃ hid (hid ▸ hres)
  · exact reserve_elsewhere hw (h₁.trans (h₂.trans h₃)) hid hres

end reserve

section apply

variable {w : Nat} {d : Delivery} {n m : Notification} {result : ProviderResult} {t₁ t₂ : Time}
  {ids : EventIds} {st : Store}

theorem afterApply_flights :
    ((afterApply s w d t₂ (.ok st)).lifecycle id).flights =
      Function.update (s.lifecycle id).flights w none := by
  funext v
  simp only [State.lifecycle, Worker.flightOf, afterApply_flight, Function.update_apply]
  split <;> rfl

theorem apply_elsewhere (hnow : s.now ≤ t₂) (hid : n.id ≠ id)
    (happ : Applied env.toSettings s.store d.message.payload.notificationId d.message.payload n
      result t₁ t₂ ids st) :
    Lifecycle.Step env.toSettings (s.lifecycle id) a
      ((afterApply s w d t₂ (.ok st)).lifecycle id) := by
  have hflights : ((afterApply s w d t₂ (.ok st)).lifecycle id).flights = _ := afterApply_flights
  have hgone := continues_of_ended hflights
  cases happ with
  | guarded => exact step_quiet hnow rfl rfl rfl rfl hgone
  | delivered =>
    exact step_quiet hnow (get_saveNotification_ne hid.symm) (historyOf_addHistory_ne hid) rfl rfl
      hgone
  | retried _ _ _ hins =>
    exact step_quiet hnow (get_saveNotification_ne hid.symm) rfl
      (congrArg _ (filter_insert?_ne hins hid)) rfl hgone
  | dropped _ _ _ hins =>
    exact step_quiet hnow (get_saveNotification_ne hid.symm) (historyOf_addHistory_ne hid)
      (congrArg _ (filter_insert?_ne hins hid)) rfl hgone

theorem apply_itself (hw : s.workers w = .responded d n result) (h₁ : s.now ≤ t₁) (h₂ : t₁ ≤ t₂)
    (hm : s.store.notifications.get n.id = some m)
    (happ : Applied env.toSettings s.store d.message.payload.notificationId d.message.payload n
      result t₁ t₂ ids st) :
    Lifecycle.Step env.toSettings (s.lifecycle n.id) (.worker w (.apply t₁ t₂ ids))
      ((afterApply s w d t₂ (.ok st)).lifecycle n.id) := by
  have hf : (s.lifecycle n.id).flights w = some _ :=
    flightOf_eq_some.2 ⟨congrArg Worker.flight? hw, rfl⟩
  cases happ with
  | guarded =>
    exact step_quiet (h₁.trans h₂) rfl rfl rfl rfl (continues_of_ended afterApply_flights)
  | delivered _ hdel =>
    have heq : (afterApply s w d t₂ (.ok ((s.store.saveNotification n
          (n.markedDelivered result)).addHistory ⟨n.id, .delivered, none, t₂⟩))).lifecycle n.id =
        { s.lifecycle n.id with
          now := t₂
          row := some (Notification.writeBack n (n.markedDelivered result) m)
          history := (s.lifecycle n.id).history ++ [⟨n.id, .delivered, none, t₂⟩]
          flights := Function.update (s.lifecycle n.id).flights w none } :=
      Lifecycle.ext rfl (get_saveNotification_self _ hm) (historyOf_addHistory_self rfl) rfl rfl
        afterApply_flights
    rw [heq]
    exact .deliver h₁ h₂ hf rfl hdel hm
  | @retried delay lockUntil outbox _ hdel hretry hins =>
    have heq : (afterApply s w d t₂ (.ok { s.store.saveNotification n
          (n.awaitingRetry result lockUntil) with outbox })).lifecycle n.id =
        { s.lifecycle n.id with
          now := t₂
          row := some (Notification.writeBack n (n.awaitingRetry result lockUntil) m)
          events := (s.lifecycle n.id).events ++
            [retryEvent (n.awaitingRetry result lockUntil) d.message.payload delay
              (some lockUntil) result.errorMessage none t₂ ids]
          flights := Function.update (s.lifecycle n.id).flights w none } :=
      Lifecycle.ext rfl (get_saveNotification_self _ hm) rfl (filter_insert?_self hins rfl) rfl
        afterApply_flights
    rw [heq]
    exact .retry h₁ h₂ hf rfl hdel hretry hm
  | @dropped outbox _ hdel hretry hins =>
    have heq : (afterApply s w d t₂ (.ok { (s.store.saveNotification n
          (n.droppedByResult result)).addHistory ⟨n.id, .dropped, result.errorMessage, t₂⟩ with
          outbox })).lifecycle n.id =
        { s.lifecycle n.id with
          now := t₂
          row := some (Notification.writeBack n (n.droppedByResult result) m)
          history := (s.lifecycle n.id).history ++ [⟨n.id, .dropped, result.errorMessage, t₂⟩]
          events := (s.lifecycle n.id).events ++
            [failedEvent (n.droppedByResult result) (some d.message.payload)
              result.errorMessage t₁ t₂ ids]
          flights := Function.update (s.lifecycle n.id).flights w none } :=
      Lifecycle.ext rfl (get_saveNotification_self _ hm) (historyOf_addHistory_self rfl)
        (filter_insert?_self hins rfl) rfl afterApply_flights
    rw [heq]
    exact .drop h₁ h₂ hf rfl hdel hretry hm

theorem apply_lifecycle (hs : Referenced s) (hw : s.workers w = .responded d n result)
    (h₁ : s.now ≤ t₁) (h₂ : t₁ ≤ t₂)
    (happ : Applied env.toSettings s.store d.message.payload.notificationId d.message.payload n
      result t₁ t₂ ids st) :
    Lifecycle.Step env.toSettings (s.lifecycle id) (.worker w (.apply t₁ t₂ ids))
      ((afterApply s w d t₂ (.ok st)).lifecycle id) := by
  obtain ⟨-, m, hm⟩ := hs.flights w _ (congrArg Worker.flight? hw)
  by_cases hid : n.id = id
  · subst hid
    exact apply_itself hw h₁ h₂ hm happ
  · exact apply_elsewhere (h₁.trans h₂) hid happ

end apply

theorem lifecycle_of_not_has (hs : Referenced s) (h : ¬ s.store.Has id) :
    s.lifecycle id = .initial s.now := by
  refine Lifecycle.ext rfl ?_ ?_ ?_ ?_ (funext fun w => ?_)
  · exact Option.eq_none_iff_forall_ne_some.2 fun n hn => h ⟨n, hn⟩
  · refine List.filter_eq_nil_iff.2 fun row hrow => ?_
    simpa using fun he : row.notificationId = id => h (he ▸ hs.history row hrow)
  · refine List.filter_eq_nil_iff.2 fun e he => ?_
    simpa using fun heq : e.aggregateId = id => h (heq ▸ hs.outbox e he)
  · refine List.filter_eq_nil_iff.2 fun c hc => ?_
    simpa using fun heq : c.idempotencyKey = id => h (heq ▸ hs.calls c hc)
  · refine Option.eq_none_iff_forall_ne_some.2 fun f hf => ?_
    obtain ⟨hf, heq⟩ := flightOf_eq_some.1 hf
    exact h (heq ▸ (hs.flights w f hf).2)

section commit

variable {q : Nat} {r : Request} {reservation : Reservation} {ids : Nat → Uuid}
  {stamps : Nat → Time} {st : Store} {response : BulkNotificationResponse}

theorem commit_itself (hs : Referenced s)
    (hfresh : s.store.Fresh (bulkIds ids (distinctRecipients r.body.recipientIds).length))
    (hcom : commitBulk s.store r.body r.key (env.requestHash r.body) reservation ids stamps =
      .ok (st, response))
    (hstamps : ∀ row ∈ newHistory r.body ids stamps, row.createdAt ≤ s.now)
    {n : Notification} (hmem : n ∈ newNotifications r.body ids stamps) :
    Lifecycle.Step env.toSettings (s.lifecycle n.id) (.request q (.commit ids stamps))
      (State.lifecycle
        { s.setRequest q { r with phase := .releasing (.accepted response) } with store := st }
        n.id) := by
  obtain ⟨-, hh, ho⟩ := commitBulk_delivery hcom
  have hnewIds := newNotifications_nodup hfresh stamps
  obtain ⟨i, recipientId, rfl, hevent, hqueued⟩ := exists_createdEvent hmem
  have hnot : ¬ s.store.Has (newNotification r.body ids stamps i recipientId).id := by
    rintro ⟨m, hm⟩
    exact newNotification_fresh hfresh hmem
      (Table.get_key hm ▸ mem_uuids_of_notification (Table.mem_of_get hm))
  have hinit := lifecycle_of_not_has hs hnot
  have hrow := commitBulk_get hcom hmem
  have hhist := filter_key_singleton (newHistory_ids ▸ hnewIds) hqueued
  have hevents := filter_key_singleton (newEvents_aggregateIds ▸ hnewIds) hevent
  have heq : State.lifecycle
      { s.setRequest q { r with phase := .releasing (.accepted response) } with store := st }
        (newNotification r.body ids stamps i recipientId).id =
      { s.lifecycle (newNotification r.body ids stamps i recipientId).id with
        row := some (newNotification r.body ids stamps i recipientId)
        history := [⟨ids (3 * i + 1), .queued, none, stamps (4 * i + 3)⟩]
        events := [createdEvent r.body ids stamps i recipientId] } := by
    refine Lifecycle.ext rfl hrow ((commit_historyOf hh).trans ?_) ((commit_eventsOf ho).trans ?_)
      rfl rfl
    · rw [show s.store.historyOf _ = [] from congrArg Lifecycle.history hinit, List.nil_append]
      exact hhist
    · rw [show s.store.eventsOf _ = [] from congrArg Lifecycle.events hinit, List.nil_append]
      exact hevents
  rw [heq]
  refine .create ?_ ?_ ?_ ?_ (fun w => ?_) (hstamps _ hqueued) <;> rw [hinit] <;> rfl

theorem commit_elsewhere
    (hcom : commitBulk s.store r.body r.key (env.requestHash r.body) reservation ids stamps =
      .ok (st, response)) (hid : id ∉ (newNotifications r.body ids stamps).map (·.id)) :
    Lifecycle.Step env.toSettings (s.lifecycle id) a
      (State.lifecycle
        { s.setRequest q { r with phase := .releasing (.accepted response) } with store := st }
        id) := by
  obtain ⟨hn, hh, ho⟩ := commitBulk_delivery hcom
  have hrow : st.notifications.get id = s.store.notifications.get id := by
    cases hg : s.store.notifications.get id with
    | some n => exact Table.get_insertAll? hn hg
    | none =>
      rw [Table.get_eq_none] at hg ⊢
      intro m hm heq
      rcases (Table.mem_insertAll? hn).1 hm with hm | hm
      · exact hg m hm heq
      · exact hid (List.mem_map.2 ⟨m, hm, heq⟩)
  have hhist : st.historyOf id = s.store.historyOf id := by
    rw [commit_historyOf hh, filter_key_nil (newHistory_ids ▸ hid), List.append_nil]
  have hevents : st.eventsOf id = s.store.eventsOf id := by
    rw [commit_eventsOf ho, filter_key_nil (newEvents_aggregateIds ▸ hid), List.append_nil]
  exact step_quiet le_rfl hrow hhist (congrArg _ hevents) rfl (continues_of_eq rfl)

theorem commit_lifecycle (hs : Referenced s)
    (hfresh : s.store.Fresh (bulkIds ids (distinctRecipients r.body.recipientIds).length))
    (hcom : commitBulk s.store r.body r.key (env.requestHash r.body) reservation ids stamps =
      .ok (st, response))
    (hstamps : ∀ row ∈ newHistory r.body ids stamps, row.createdAt ≤ s.now) :
    Lifecycle.Step env.toSettings (s.lifecycle id) (.request q (.commit ids stamps))
      (State.lifecycle
        { s.setRequest q { r with phase := .releasing (.accepted response) } with store := st }
        id) := by
  by_cases hid : id ∈ (newNotifications r.body ids stamps).map (·.id)
  · obtain ⟨n, hmem, rfl⟩ := List.mem_map.1 hid
    exact commit_itself hs hfresh hcom hstamps hmem
  · exact commit_elsewhere hcom hid

end commit

theorem change_lifecycle (hs : Referenced s) (h : Change env s a s') :
    Lifecycle.Step env.toSettings (s.lifecycle id) a (s'.lifecycle id) := by
  cases h with
  | quiet hnow hn hh ho hc hf =>
    exact step_quiet hnow (by rw [hn]) (by rw [Store.historyOf, hh]; rfl)
      (by rw [Store.eventsOf, ho]; rfl) (by rw [State.callsOf, hc]; rfl) (flightOf_continues hf)
  | call hw => exact call_lifecycle hw
  | reserve hw h₁ h₂ h₃ _ hres => exact reserve_lifecycle hw h₁ h₂ h₃ hres
  | apply hw h₁ h₂ _ happ => exact apply_lifecycle hs hw h₁ h₂ happ
  | claim _ h₁ h₂ h₃ heq =>
    subst heq
    refine step_quiet (h₁.trans (h₂.trans h₃)) rfl rfl
      (eventsOf_map_asWritten (fun e => ?_) (Table.rows_modifyWhere (OutboxEvent.claimed_id _)))
      rfl fun w f hf => ⟨f, hf, continues_refl f⟩
    split <;> rfl
  | recordPublished _ ht | recordRaised _ ht =>
    refine step_quiet ht rfl rfl
      (eventsOf_map_asWritten (fun e => ?_)
        (Table.rows_modifyWhere (OutboxEvent.writeBack_id _ _))) rfl
      fun w f hf => ⟨f, hf, continues_refl f⟩
    split <;> rfl
  | commit _ _ hfresh hcom hstamps => exact commit_lifecycle hs hfresh hcom hstamps

/-- **Simulation.** A step of the system is a step of every notification's lifecycle. -/
theorem lifecycle_step {ok : State → Action → Prop} (hs : (machine env).Reach ok s)
    (h : step env s a = some s') (id : Uuid) :
    Lifecycle.Step env.toSettings (s.lifecycle id) a (s'.lifecycle id) :=
  change_lifecycle (referenced_reach hs) (change_of_step h)

/-! ## Invariants of lifecycles -/

section rules

variable {ok : State → Action → Prop} {I : Lifecycle → Prop}

/-- **The invariant rule for lifecycles.** What holds before the creation and is preserved by
each step of the lifecycle holds in every reachable state. -/
theorem lifecycle_induct (h₀ : ∀ now, I (.initial now))
    (hstep : ∀ t a l', (machine env).Reach ok t → ok t a → I (t.lifecycle id) →
      Lifecycle.Step env.toSettings (t.lifecycle id) a l' → I l')
    (h : (machine env).Reach ok s) : I (s.lifecycle id) := by
  refine Machine.Reach.induct (I := fun s => I (s.lifecycle id)) ?_ ?_ h
  · rintro _ ⟨now, rfl⟩
    exact h₀ now
  · exact fun t a t' ht hI hok ht' => hstep t a _ ht hok hI (lifecycle_step ht ht' id)

/-- The same along a run from a reachable state. -/
theorem lifecycle_run {as : List Action} (hs : (machine env).Reach ok s)
    (h₀ : I (s.lifecycle id))
    (hstep : ∀ t a l', (machine env).Reach ok t → ok t a → I (t.lifecycle id) →
      Lifecycle.Step env.toSettings (t.lifecycle id) a l' → I l')
    (h : (machine env).Run ok s as s') : I (s'.lifecycle id) :=
  Machine.Run.induct (I := fun s => I (s.lifecycle id)) hs h₀
    (fun t a _ ht hI hok ht' => hstep t a _ ht hok hI (lifecycle_step ht ht' id)) h

end rules

/-! ## Statuses and locks -/

/-- What the columns of the row and of the instances in flight say about each other. -/
structure Lifecycle.Sound (l : Lifecycle) : Prop where
  flights : ∀ w f, l.flights w = some f →
    f.loaded.status = .sent ∧ ∃ lockUntil, f.loaded.processingLockUntil = some lockUntil
  queued : ∀ n, l.row = some n → n.status = .queued → n.attempts = 0
  sent : ∀ n, l.row = some n → n.status = .sent →
    ∃ lockUntil, n.processingLockUntil = some lockUntil

theorem sound_initial (now : Time) : (Lifecycle.initial now).Sound where
  flights _ _ h := by cases h
  queued _ h := by cases h
  sent _ h := by cases h

theorem sound_step {cfg : Settings} {l l' : Lifecycle} (hl : l.Sound) (h : l.Step cfg a l') :
    l'.Sound := by
  have hflights : ∀ w f, l'.flights w = some f →
      f.loaded.status = .sent ∧ ∃ lockUntil, f.loaded.processingLockUntil = some lockUntil := by
    intro w f hf
    rcases h.flight hf with ⟨f₀, hf₀, hl₀, -⟩ | ⟨n, lockUntil, -, hnew, -, -⟩
    · rw [hl₀]
      exact hl.flights w f₀ hf₀
    · rw [hnew]
      exact ⟨rfl, lockUntil, rfl⟩
  cases h with
  | quiet _ hrow => exact ⟨hflights, hrow ▸ hl.queued, hrow ▸ hl.sent⟩
  | create =>
    refine ⟨hflights, ?_, ?_⟩ <;> rintro _ ⟨⟩ hq
    · rfl
    · simp [newNotification] at hq
  | call | defer => exact ⟨hflights, hl.queued, hl.sent⟩
  | reserve =>
    refine ⟨hflights, ?_, ?_⟩ <;> rintro _ ⟨⟩ hq
    · simp [Notification.reserved] at hq
    · exact ⟨_, rfl⟩
  | refuse =>
    refine ⟨hflights, ?_, ?_⟩ <;> rintro _ ⟨⟩ hq <;>
      simp [Notification.droppedBeforeProvider] at hq
  | deliver _ _ hf =>
    have hstatus := (hl.flights _ _ hf).1
    refine ⟨hflights, ?_, ?_⟩ <;> rintro _ ⟨⟩ hq <;>
      simp [Notification.writeBack, Notification.markedDelivered, writeColumn, hstatus] at hq
  | drop _ _ hf =>
    have hstatus := (hl.flights _ _ hf).1
    refine ⟨hflights, ?_, ?_⟩ <;> rintro _ ⟨⟩ hq <;>
      simp [Notification.writeBack, Notification.droppedByResult, Notification.withError,
        writeColumn, hstatus] at hq
  | @retry w t₁ t₂ lockUntil delay ids f result m _ _ hf _ _ _ hrow =>
    refine ⟨hflights, ?_, ?_⟩ <;> rintro _ ⟨⟩ hq
    · simp only [Notification.writeBack, Notification.awaitingRetry, Notification.withError,
        writeColumn_same] at hq ⊢
      exact hl.queued m hrow hq
    · simp only [Notification.writeBack, Notification.awaitingRetry, Notification.withError,
        writeColumn_same] at hq ⊢
      unfold writeColumn
      split
      · exact hl.sent m hrow hq
      · exact ⟨_, rfl⟩

theorem sound_reach {ok : State → Action → Prop} (h : (machine env).Reach ok s) (id : Uuid) :
    (s.lifecycle id).Sound :=
  lifecycle_induct sound_initial (fun _ _ _ _ _ hl hstep => sound_step hl hstep) h

end NotificationSystem
