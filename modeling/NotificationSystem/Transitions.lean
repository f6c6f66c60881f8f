import NotificationSystem.RetryMessages

/-!
# The transition table

`app/services/status_transitions.py` declares which status may follow which. Nothing that
writes a status reads the table, so the writers are compared with it.

* `Assigns` — the committed assignments of the four functions that write a status.
* `assigns_of_step` — no other step changes the status or the history of a notification.
* `worker_follows_table` — as long as the row is open, the assignments are in the table, but
  for one pair: a further attempt assigns `sent` to a notification that is already `sent`.
-/

namespace NotificationSystem

open Lib

variable {env : Deployment} {s s' : State} {a : Action} {id : Uuid}

/-! ## The table -/

/-- `ALLOWED_TRANSITIONS`. -/
def allowedTransitions : List (NotificationStatus × NotificationStatus) :=
  [(.queued, .sent), (.sent, .delivered), (.queued, .dropped), (.sent, .dropped),
    (.delivered, .delivered), (.dropped, .dropped)]

/-- `can_transition`. -/
def canTransition (current target : NotificationStatus) : Bool :=
  (current, target) ∈ allowedTransitions

/-- The statuses of a notification that is finished. -/
def NotificationStatus.isFinal (status : NotificationStatus) : Bool :=
  status = .delivered || status = .dropped

theorem isFinal_status (n : Notification) : n.isFinal = n.status.isFinal := rfl

/-- From an open status, the table allows whatever leads on. -/
theorem canTransition_open {old new : NotificationStatus} (h : old.isFinal = false) :
    canTransition old new = true ↔
      new ≠ .queued ∧ new ≠ old ∧ (new = .delivered → old = .sent) := by
  cases old <;> cases new <;> simp_all [NotificationStatus.isFinal, canTransition,
    allowedTransitions]

/-! ## The writers -/

/-- The functions that assign `Notification.status`. -/
inductive StatusWriter
  | reserve
  | dropBeforeProvider
  | markDelivered
  | drop
  deriving DecidableEq, Repr

/-- The action, taken in `s`, commits a transaction in which the writer assigns the status to
the notification `id`. -/
inductive Assigns (env : Deployment) (s : State) (id : Uuid) :
    Action → StatusWriter → NotificationStatus → Prop
  | reserve {w : Nat} {d : Delivery} {t₁ t₂ t₃ : Time} {ids : EventIds} {st : Store}
      {n : Notification} : s.workers w = .received d → d.message.payload.notificationId = id →
      reserve env.toSettings s.store id d.message.payload t₁ t₂ t₃ ids = .ok (st, some n) →
      Assigns env s id (.worker w (.reserve t₁ t₂ t₃ ids)) .reserve n.status
  | dropBeforeProvider {w : Nat} {d : Delivery} {t₁ t₂ t₃ : Time} {ids : EventIds} {st : Store}
      {n : Notification} : s.workers w = .received d → d.message.payload.notificationId = id →
      s.store.notifications.get id = some n → n.isFinal = false →
      n.hasActiveProcessingLock t₁ = false → env.maxRetries ≤ n.attempts →
      dropBeforeProvider s.store n t₂ t₃ ids = .ok st →
      Assigns env s id (.worker w (.reserve t₁ t₂ t₃ ids)) .dropBeforeProvider
        n.droppedBeforeProvider.status
  | markDelivered {w : Nat} {d : Delivery} {t₁ t₂ : Time} {ids : EventIds}
      {loaded : Notification} {result : ProviderResult} :
      s.workers w = .responded d loaded result → d.message.payload.notificationId = id →
      s.store.Has id → loaded.isFinal = false → (result.success && result.delivered) = true →
      result.storable = true →
      Assigns env s id (.worker w (.apply t₁ t₂ ids)) .markDelivered
        (loaded.markedDelivered result).status
  | drop {w : Nat} {d : Delivery} {t₁ t₂ : Time} {ids : EventIds} {loaded : Notification}
      {result : ProviderResult} {st : Store} :
      s.workers w = .responded d loaded result → d.message.payload.notificationId = id →
      s.store.Has id → loaded.isFinal = false → (result.success && result.delivered) = false →
      retryUntil env.toSettings loaded.attempts result t₁ = .ok none →
      drop s.store loaded d.message.payload result t₁ t₂ ids = .ok st → result.storable = true →
      Assigns env s id (.worker w (.apply t₁ t₂ ids)) .drop
        (loaded.droppedByResult result).status

/-- The stored status of a notification. -/
def Store.statusOf (st : Store) (id : Uuid) : Option NotificationStatus :=
  (st.notifications.get id).map (·.status)

/-- The statuses of its history, in commit order. -/
def Store.statusesOf (st : Store) (id : Uuid) : List NotificationStatus :=
  (st.historyOf id).map (·.status)

/-! ## What an assignment leaves -/

/-- Over the row `n`, a transaction has assigned `new` to the status of the notification, and
the history says so. -/
structure Assigned (st st' : Store) (id : Uuid) (n : Notification) (new : NotificationStatus) :
    Prop where
  stored : st.notifications.get id = some n
  row : st'.statusOf id = some new
  history : st'.statusesOf id = st.statusesOf id ++ [new]

/-- Every writer saves the instance and adds a history row for its status. -/
theorem assigned_of_save {st : Store} {loaded updated n : Notification} {message : Option String}
    {t : Time} {outbox : Table OutboxEvent.id} (h : st.notifications.get loaded.id = some n)
    (hwrite : writeColumn loaded.status updated.status n.status = updated.status) :
    Assigned st
      { (st.saveNotification loaded updated).addHistory ⟨loaded.id, updated.status, message, t⟩ with
        outbox } loaded.id n updated.status := by
  refine ⟨h, ?_, ?_⟩
  · show ((st.saveNotification loaded updated).notifications.get loaded.id).map (·.status) = _
    rw [get_saveNotification_self updated h, Option.map_some]
    exact congrArg some hwrite
  · have hhistory : ((st.saveNotification loaded updated).addHistory
        ⟨loaded.id, updated.status, message, t⟩).historyOf loaded.id =
        st.historyOf loaded.id ++ [⟨loaded.id, updated.status, message, t⟩] :=
      historyOf_addHistory_self rfl
    show (((st.saveNotification loaded updated).addHistory _).historyOf loaded.id).map _ = _
    simp [hhistory, Store.statusesOf]

section steps

variable {w : Nat} {d : Delivery} {t₁ t₂ t₃ : Time} {ids : EventIds} {st : Store}

theorem reserve_store {out : Option Notification} (hw : s.workers w = .received d)
    (hres : reserve env.toSettings s.store d.message.payload.notificationId d.message.payload
      t₁ t₂ t₃ ids = .ok (st, out))
    (h : step env s (.worker w (.reserve t₁ t₂ t₃ ids)) = some s') : s'.store = st := by
  simp only [step, workerStep, hw, hres] at h
  split at h
  · cases h
    exact afterReserve_store
  · cases h

theorem apply_store {loaded : Notification} {result : ProviderResult}
    (hw : s.workers w = .responded d loaded result)
    (happ : apply env.toSettings s.store d.message.payload.notificationId d.message.payload
      loaded result t₁ t₂ ids = .ok st)
    (h : step env s (.worker w (.apply t₁ t₂ ids)) = some s') : s'.store = st := by
  simp only [step, workerStep, hw, happ] at h
  split at h
  · cases h
    rfl
  · cases h

theorem responded_loaded {ok : State → Action → Prop} (hr : (machine env).Reach ok s)
    {loaded : Notification} {result : ProviderResult}
    (hw : s.workers w = .responded d loaded result)
    (hid : d.message.payload.notificationId = id) :
    loaded.id = id ∧ loaded.status = .sent ∧ ∃ f, (s.lifecycle id).flights w = some f := by
  have hflight := congrArg Worker.flight? hw
  have hloaded : loaded.id = id := ((referenced_reach hr).flights w _ hflight).1.trans hid
  have hf := flightOf_eq_some.2 ⟨hflight, hloaded⟩
  exact ⟨hloaded, ((sound_reach hr id).flights w _ hf).1, _, hf⟩

end steps

theorem assigned_of_assigns {ok : State → Action → Prop} {writer : StatusWriter}
    {new : NotificationStatus} (hr : (machine env).Reach ok s)
    (h : Assigns env s id a writer new) (hstep : step env s a = some s') :
    ∃ n, Assigned s.store s'.store id n new := by
  cases h with
  | @reserve w d t₁ t₂ t₃ ids st n hw hid hres =>
    subst hid
    rw [reserve_store hw hres hstep]
    cases reserve_ok hres with
    | @attempt m lockUntil hn =>
      have hassigned : Assigned s.store
          ((s.store.saveNotification m (m.reserved lockUntil)).addHistory ⟨m.id, .sent, none, t₃⟩)
          m.id m (m.reserved lockUntil).status :=
        assigned_of_save (Table.get_key hn ▸ hn) writeColumn_current
      rw [← Table.get_key hn]
      exact ⟨m, hassigned⟩
  | @dropBeforeProvider w d t₁ t₂ t₃ ids st n hw hid hn hopen hlock hmax hdrop =>
    have hres : reserve env.toSettings s.store id d.message.payload t₁ t₂ t₃ ids =
        .ok (st, none) := by
      simp [reserve, hn, hopen, hlock, hmax, hdrop]
    obtain ⟨outbox, -, rfl⟩ := addOutboxEvent_ok hdrop
    subst hid
    rw [reserve_store hw hres hstep, ← Table.get_key hn]
    exact ⟨n, assigned_of_save (Table.get_key hn ▸ hn) writeColumn_current⟩
  | @markDelivered w d t₁ t₂ ids loaded result hw hid hhas hopen hdel hfits =>
    obtain ⟨hloaded, hsent, -⟩ := responded_loaded hr hw hid
    obtain ⟨n, hn⟩ := hhas
    have happ : apply env.toSettings s.store id d.message.payload loaded result t₁ t₂ ids =
        .ok (markDelivered s.store loaded result t₂) := by
      simp [apply, hn, hopen, hdel, commitResult, hfits]
    subst hid
    rw [apply_store hw happ hstep, ← hloaded]
    exact ⟨n, assigned_of_save (hloaded ▸ hn)
      (writeColumn_of_ne (by simp [Notification.markedDelivered, hsent]))⟩
  | @drop w d t₁ t₂ ids loaded result st hw hid hhas hopen hdel hretry hdrop hfits =>
    obtain ⟨hloaded, hsent, -⟩ := responded_loaded hr hw hid
    obtain ⟨n, hn⟩ := hhas
    have happ : apply env.toSettings s.store id d.message.payload loaded result t₁ t₂ ids =
        .ok st := by
      simp [apply, hn, hopen, hdel, hretry, hdrop, commitResult, hfits]
    obtain ⟨outbox, -, rfl⟩ := addOutboxEvent_ok hdrop
    subst hid
    rw [apply_store hw happ hstep, ← hloaded]
    exact ⟨n, assigned_of_save (hloaded ▸ hn)
      (writeColumn_of_ne (by simp [Notification.droppedByResult, hsent]))⟩

/-! ## Which pairs are assigned -/

theorem assigns_pair {ok : State → Action → Prop} {writer : StatusWriter}
    {new : NotificationStatus} {n : Notification} (hr : (machine env).Reach ok s)
    (h : Assigns env s id a writer new) (hn : s.store.notifications.get id = some n)
    (hopen : n.isFinal = false) :
    canTransition n.status new = true ∨ writer = .reserve ∧ n.status = .sent ∧ new = .sent := by
  rw [isFinal_status] at hopen
  cases h with
  | reserve _ hid hres =>
    cases reserve_ok hres with
    | attempt =>
      by_cases hsent : n.status = .sent
      · exact .inr ⟨rfl, hsent, rfl⟩
      · refine .inl ((canTransition_open hopen).2 ⟨?_, ?_, ?_⟩)
        · simp [Notification.reserved]
        · simpa [Notification.reserved] using Ne.symm hsent
        · simp [Notification.reserved]
  | dropBeforeProvider =>
    refine .inl ((canTransition_open hopen).2 ⟨?_, ?_, ?_⟩)
    · simp [Notification.droppedBeforeProvider]
    · intro heq
      simp [Notification.droppedBeforeProvider] at heq
      simp [← heq, NotificationStatus.isFinal] at hopen
    · simp [Notification.droppedBeforeProvider]
  | markDelivered hw hid =>
    obtain ⟨-, -, f, hf⟩ := responded_loaded hr hw hid
    left
    rw [sent_of_flight (sound_reach hr id) (counted_reach hr id) hf hn hopen]
    rfl
  | drop hw hid =>
    obtain ⟨-, -, f, hf⟩ := responded_loaded hr hw hid
    left
    rw [sent_of_flight (sound_reach hr id) (counted_reach hr id) hf hn hopen]
    rfl

/-- `reserve` and `_drop_before_provider` load the stored row, and leave a final one alone. -/
theorem open_of_assigns {writer : StatusWriter} {new : NotificationStatus} {n : Notification}
    (h : Assigns env s id a writer new) (hn : s.store.notifications.get id = some n)
    (hwriter : writer = .reserve ∨ writer = .dropBeforeProvider) : n.isFinal = false := by
  cases h with
  | reserve _ _ hres =>
    cases reserve_ok hres with
    | attempt hm hopen =>
      cases hm.symm.trans hn
      exact hopen
  | dropBeforeProvider _ _ hm hopen =>
    cases hm.symm.trans hn
    exact hopen
  | markDelivered | drop => rcases hwriter with h | h <;> cases h

/-! ## Nothing else assigns -/

/-- The status and the history of the notification are what they were. -/
def Store.Keeps (st st' : Store) (id : Uuid) : Prop :=
  st'.statusOf id = st.statusOf id ∧ st'.statusesOf id = st.statusesOf id

theorem keeps_of_eq {st st' : Store} (hn : st'.notifications = st.notifications)
    (hh : st'.history = st.history) : st.Keeps st' id := by
  simp [Store.Keeps, Store.statusOf, Store.statusesOf, Store.historyOf, hn, hh]

theorem keeps_of_save {st : Store} {loaded updated : Notification}
    {row : NotificationStatusHistory} {outbox : Table OutboxEvent.id} (hid : loaded.id ≠ id)
    (hrow : row.notificationId = loaded.id) :
    st.Keeps { (st.saveNotification loaded updated).addHistory row with outbox } id := by
  refine ⟨?_, ?_⟩
  · show ((st.saveNotification loaded updated).notifications.get id).map _ = _
    rw [get_saveNotification_ne hid.symm]
    rfl
  · show (((st.saveNotification loaded updated).addHistory row).historyOf id).map _ = _
    rw [historyOf_addHistory_ne (hrow ▸ hid)]
    rfl

theorem keeps_of_retry {st : Store} {loaded : Notification} {result : ProviderResult}
    {lockUntil : Time} {outbox : Table OutboxEvent.id} :
    st.Keeps { st.saveNotification loaded (loaded.awaitingRetry result lockUntil) with outbox }
      id := by
  refine ⟨?_, rfl⟩
  show ((st.saveNotification loaded _).notifications.get id).map _ = _
  rw [get_saveNotification]
  split
  · rw [Option.map_map]
    refine congrArg (Option.map · _) (funext fun m => ?_)
    simp [Notification.writeBack, Notification.awaitingRetry, Notification.withError]
  · rfl

/-- A step changes the status and the history of a stored notification only where one of the
writers assigns. -/
theorem assigns_of_step {ok : State → Action → Prop} (hr : (machine env).Reach ok s)
    (hstep : step env s a = some s') {n : Notification}
    (hn : s.store.notifications.get id = some n) :
    s.store.Keeps s'.store id ∨ ∃ writer new, Assigns env s id a writer new := by
  cases change_of_step hstep with
  | quiet _ hnot hh => exact .inl (keeps_of_eq hnot hh)
  | call => exact .inl ⟨rfl, rfl⟩
  | claim _ _ _ _ heq =>
    subst heq
    exact .inl ⟨rfl, rfl⟩
  | recordPublished | recordRaised => exact .inl ⟨rfl, rfl⟩
  | @reserve w d t₁ t₂ t₃ ids st out hw _ _ _ _ hres =>
    rw [afterReserve_store]
    cases hres with
    | missing | final | covered | deferred => exact .inl ⟨rfl, rfl⟩
    | @refused m outbox hm hopen hlock hmax hins =>
      by_cases hid : m.id = id
      · have hmsg : d.message.payload.notificationId = id := (Table.get_key hm).symm.trans hid
        have hdrop : dropBeforeProvider s.store m t₂ t₃ ids = .ok _ :=
          addOutboxEvent_of_insert hins
        exact .inr ⟨_, _, .dropBeforeProvider hw hmsg (hmsg ▸ hm) hopen hlock hmax hdrop⟩
      · exact .inl (keeps_of_save hid rfl)
    | @attempt m lockUntil hm hopen hlock hmax hadd =>
      by_cases hid : m.id = id
      · have hmsg : d.message.payload.notificationId = id := (Table.get_key hm).symm.trans hid
        have hres : reserve env.toSettings s.store id d.message.payload t₁ t₂ t₃ ids =
            .ok ((s.store.saveNotification m (m.reserved lockUntil)).addHistory
              ⟨m.id, .sent, none, t₃⟩, some (m.reserved lockUntil)) := by
          simp [reserve, hmsg ▸ hm, hopen, hlock, not_le.2 hmax, hadd]
        exact .inr ⟨_, _, .reserve hw hmsg hres⟩
      · exact .inl (keeps_of_save hid rfl)
  | @apply w d loaded result t₁ t₂ ids st hw _ _ _ happ =>
    have hloaded := ((referenced_reach hr).flights w _ (congrArg Worker.flight? hw)).1
    show s.store.Keeps st id ∨ _
    cases happ with
    | guarded => exact .inl ⟨rfl, rfl⟩
    | delivered hopen hdel hfits =>
      by_cases hid : loaded.id = id
      · exact .inr ⟨_, _, .markDelivered hw (hloaded.symm.trans hid) ⟨n, hn⟩ hopen hdel hfits⟩
      · exact .inl (keeps_of_save hid rfl)
    | retried => exact .inl keeps_of_retry
    | @dropped outbox hopen hdel hretry hins hfits =>
      by_cases hid : loaded.id = id
      · have hdrop : drop s.store loaded d.message.payload result t₁ t₂ ids = .ok _ :=
          addOutboxEvent_of_insert hins
        exact .inr
          ⟨_, _, .drop hw (hloaded.symm.trans hid) ⟨n, hn⟩ hopen hdel hretry hdrop hfits⟩
      · exact .inl (keeps_of_save hid rfl)
  | @commit q r reservation ids stamps st response _ _ hfresh hcom =>
    obtain ⟨hinsert, hh, -⟩ := commitBulk_delivery hcom
    refine .inl ⟨?_, ?_⟩
    · show (st.notifications.get id).map _ = (s.store.notifications.get id).map _
      rw [Table.get_insertAll? hinsert hn, hn]
    · have hnew : id ∉ (newHistory r.body ids stamps).map (·.notificationId) := by
        intro hmem
        rw [newHistory_ids] at hmem
        obtain ⟨m, hm, hid⟩ := List.mem_map.1 hmem
        have hstored := mem_uuids_of_notification (Table.mem_of_get hn)
        rw [Table.get_key hn, ← hid] at hstored
        exact newNotification_fresh hfresh hm hstored
      show (st.historyOf id).map _ = _
      rw [commit_historyOf hh, filter_key_nil hnew, List.append_nil]
      rfl

/-! ## The worker and the table -/

/-- What may come after an open status: a pair of the table, or the `sent` of a further
attempt. Nothing is said of what comes after a final one. -/
def Follows (old new : NotificationStatus) : Prop :=
  old.isFinal = false → canTransition old new = true ∨ old = .sent ∧ new = .sent

theorem created_of_step {ok : State → Action → Prop} (hr : (machine env).Reach ok s)
    (hstep : step env s a = some s') (hn : s.store.notifications.get id = none) :
    (s'.store.statusOf id = none ∧ s'.store.statusesOf id = []) ∨
      (s'.store.statusOf id = some .queued ∧ s'.store.statusesOf id = [.queued]) := by
  have hrow : (s.lifecycle id).row = none := hn
  have hempty : (s.lifecycle id).history = [] := by
    rw [lifecycle_of_not_has (referenced_reach hr) (by simp [Store.Has, hn])]
    rfl
  have hlife := lifecycle_step hr hstep id
  show ((s'.lifecycle id).row.map (·.status) = none ∧ (s'.lifecycle id).history.map (·.status) = [])
    ∨ ((s'.lifecycle id).row.map (·.status) = some .queued ∧
      (s'.lifecycle id).history.map (·.status) = [.queued])
  generalize s'.lifecycle id = l' at hlife
  cases hlife with
  | quiet _ hr hh => exact .inl (by simp [hr, hh, hrow, hempty])
  | create => exact .inr ⟨rfl, rfl⟩
  | call | defer => exact .inl (by simp [hrow, hempty])
  | reserve _ _ _ hm | refuse _ _ _ hm => cases hrow.symm.trans hm
  | deliver _ _ _ _ _ hm => cases hrow.symm.trans hm
  | retry _ _ _ _ _ _ hm | drop _ _ _ _ _ _ hm => cases hrow.symm.trans hm

/-- The history ends with the status of the row, and each status follows the one before. -/
structure Store.Tracks (st : Store) (id : Uuid) : Prop where
  last : (st.statusesOf id).getLast? = st.statusOf id
  chain : (st.statusesOf id).IsChain Follows

theorem tracks_step {ok : State → Action → Prop} (hr : (machine env).Reach ok s)
    (hs : s.store.Tracks id) (hstep : step env s a = some s') : s'.store.Tracks id := by
  cases hn : s.store.notifications.get id with
  | none =>
    rcases created_of_step hr hstep hn with ⟨hstatus, hstatuses⟩ | ⟨hstatus, hstatuses⟩
    · exact ⟨by simp [hstatus, hstatuses], by simp [hstatuses]⟩
    · exact ⟨by simp [hstatus, hstatuses], by simp [hstatuses]⟩
  | some n =>
    rcases assigns_of_step hr hstep hn with ⟨hstatus, hstatuses⟩ | ⟨writer, new, h⟩
    · exact ⟨by rw [hstatus, hstatuses, hs.last], by rw [hstatuses]; exact hs.chain⟩
    · obtain ⟨m, hm, hrow, hhistory⟩ := assigned_of_assigns hr h hstep
      refine ⟨by simp [hrow, hhistory], ?_⟩
      -- the last entry is the status that the writer assigns over
      rw [hhistory, List.isChain_append]
      refine ⟨hs.chain, List.isChain_singleton _, fun old hold status hnew => ?_⟩
      rw [hs.last, Store.statusOf, hm] at hold
      cases hold
      cases hnew
      intro hopen
      exact (assigns_pair hr h hm hopen).imp_right And.right

theorem tracks_reach {ok : State → Action → Prop} (h : (machine env).Reach ok s) (id : Uuid) :
    s.store.Tracks id := by
  refine Machine.Reach.induct (I := fun s => s.store.Tracks id) ?_ ?_ h
  · rintro _ ⟨now, rfl⟩
    exact ⟨rfl, List.isChain_nil⟩
  · intro t a t' ht htracks _ hstep
    exact tracks_step ht htracks hstep

theorem sample_second_attempt : ∃ s a s' writer n,
    (machine Sample.env).Reach Machine.Always s ∧ step Sample.env s a = some s' ∧
      Assigns Sample.env s 1 a writer .sent ∧ s.store.notifications.get 1 = some n ∧
      n.status = .sent ∧ s'.store.statusesOf 1 = [.queued, .sent, .sent] := by
  let second : Action :=
    .worker 1 (.reserve (Sample.sec 10) (Sample.sec 10) (Sample.sec 10) ⟨8, 9⟩)
  obtain ⟨s, hrun, hs⟩ := Machine.Run.exists_of_exec_always (machine Sample.env) (.initial 0)
    Sample.retried (fun s => s.store.statusesOf 1 = [.queued, .sent] &&
      (s.store.notifications.get 1).any (·.status = .sent) &&
      ((machine Sample.env).exec s [second]).any fun s' =>
        s'.store.statusesOf 1 = [.queued, .sent, .sent]) (by decide)
  simp only [Bool.and_eq_true, decide_eq_true_eq] at hs
  obtain ⟨⟨hbefore, hn⟩, hafter⟩ := hs
  obtain ⟨n, hn, hsent⟩ := (Option.any_eq_true _ _).1 hn
  obtain ⟨s', hstep, hafter⟩ := Machine.step_of_exec hafter
  change step Sample.env s second = some s' at hstep
  rw [decide_eq_true_eq] at hsent hafter
  have hreach : (machine Sample.env).Reach Machine.Always s := .run (.init ⟨0, rfl⟩) hrun
  rcases assigns_of_step hreach hstep hn with hkeeps | ⟨writer, new, hassigns⟩
  · have hsame := hkeeps.2
    simp [hbefore, hafter] at hsame
  · obtain ⟨m, -, -, hhistory⟩ := assigned_of_assigns hreach hassigns hstep
    obtain rfl : .sent = new := by simpa [hbefore, hafter] using hhistory
    exact ⟨s, _, s', writer, n, hreach, hstep, hassigns, hn, hsent, hafter⟩

/-- **The worker follows the table as long as the row is open**: every assignment over an open
status, and every two consecutive entries of a history of which the first is open, are in the
table, or they are the `sent` of a further attempt after the `sent` of the one before. -/
theorem worker_follows_table (h : (machine env).Reach Machine.Always s) (id : Uuid) :
    (∀ a s' writer new, step env s a = some s' → Assigns env s id a writer new →
      ∃ n, Assigned s.store s'.store id n new ∧
        (n.isFinal = false → canTransition n.status new = true ∨
          writer = .reserve ∧ n.status = .sent ∧ new = .sent) ∧
        (writer = .reserve ∨ writer = .dropBeforeProvider → n.isFinal = false)) ∧
      (∀ a s' n, step env s a = some s' → s.store.notifications.get id = some n →
        ¬ s.store.Keeps s'.store id → ∃ writer new, Assigns env s id a writer new) ∧
      ((s.store.historyOf id).map (·.status)).IsChain Follows := by
  refine ⟨?_, ?_, (tracks_reach h id).chain⟩
  · intro a s' writer new hstep hassigns
    obtain ⟨n, hassigned⟩ := assigned_of_assigns h hassigns hstep
    exact ⟨n, hassigned, assigns_pair h hassigns hassigned.stored,
      open_of_assigns hassigns hassigned.stored⟩
  · intro a s' n hstep hn hkeeps
    exact (assigns_of_step h hstep hn).resolve_left hkeeps

theorem worker_follows_table_second : ∃ s a s' writer n,
    step Sample.env s a = some s' ∧ Assigns Sample.env s 1 a writer .sent ∧
      s.store.notifications.get 1 = some n ∧ n.status = .sent ∧
      ((∀ a s' writer new, step Sample.env s a = some s' →
          Assigns Sample.env s 1 a writer new →
          ∃ n, Assigned s.store s'.store 1 n new ∧
            (n.isFinal = false → canTransition n.status new = true ∨
              writer = .reserve ∧ n.status = .sent ∧ new = .sent) ∧
            (writer = .reserve ∨ writer = .dropBeforeProvider → n.isFinal = false)) ∧
        (∀ a s' n, step Sample.env s a = some s' → s.store.notifications.get 1 = some n →
          ¬ s.store.Keeps s'.store 1 →
          ∃ writer new, Assigns Sample.env s 1 a writer new) ∧
        ((s.store.historyOf 1).map (·.status)).IsChain Follows) := by
  obtain ⟨s, a, s', writer, n, hreach, hstep, hassigns, hn, hsent, -⟩ := sample_second_attempt
  exact ⟨s, a, s', writer, n, hstep, hassigns, hn, hsent, worker_follows_table hreach 1⟩

/-- **A further attempt is not in the table**: its reserve assigns `sent` to a notification that
is `sent`, and the history has both. -/
theorem worker_leaves_table :
    (¬ ∀ (env : Deployment) (s : State), (machine env).Reach Machine.Always s →
      ∀ id a s' writer new n, step env s a = some s' → Assigns env s id a writer new →
        s.store.notifications.get id = some n → canTransition n.status new = true) ∧
      ¬ ∀ (env : Deployment) (s : State), (machine env).Reach Machine.Always s →
        ∀ id, ((s.store.historyOf id).map (·.status)).IsChain fun old new =>
          canTransition old new = true := by
  obtain ⟨s, a, s', writer, n, hreach, hstep, hassigns, hn, hsent, hafter⟩ := sample_second_attempt
  refine ⟨fun h => ?_, fun h => ?_⟩
  · have hallowed := h Sample.env s hreach 1 a s' writer .sent n hstep hassigns hn
    rw [hsent] at hallowed
    cases hallowed
  · have hchain := h Sample.env s' (hreach.step trivial hstep) 1
    rw [show (s'.store.historyOf 1).map (·.status) = [.queued, .sent, .sent] from hafter] at hchain
    simp [canTransition, allowedTransitions] at hchain

end NotificationSystem
