import NotificationSystem.Contract
import NotificationSystem.Integrity
import NotificationSystem.Materialised
import NotificationSystem.NoLoss
import NotificationSystem.Story

/-!
# The system keeps the contract

What a step adds to the notifications, to their history and to the provider calls, and what the
provider answers in it, are the events of the contract. Whatever the system tells in a run is then
a run of the contract, with `late` in general, and without where a worker calls the provider and
applies its answer only while the lock of its own attempt lasts.

* `told` — the events of a step.
* `Lifecycle.Mirrors` — when an entry of the book says what the system holds of a notification.
* `contract_kept`, `contract_kept_in_time` — the refinement.
* `told_ending_accounted`, `told_ended_last` — what follows for the events of the system.
-/

namespace NotificationSystem

open Lib

variable {env : Deployment} {s s' : State} {a : Action} {id : Uuid} {w : Nat} {f : Flight}
  {n n' : Notification} {x y : Book} {deed : Deed} {e : Entry}

/-! ## What a step tells -/

def Notification.order (n : Notification) : Order :=
  ⟨n.id, n.batchId, n.subscriberId, n.channel, n.type, n.message⟩

/-- How a notification of this status has ended. -/
def NotificationStatus.ending : NotificationStatus → Option Ending
  | .queued | .sent => none
  | .delivered => some .delivered
  | .dropped => some .dropped

/-- What a row of the history tells. -/
def NotificationStatusHistory.event (row : NotificationStatusHistory) : Option Event :=
  match row.status with
  | .queued => none
  | .sent => some (.did row.notificationId .begun)
  | .delivered => some (.did row.notificationId (.ended .delivered))
  | .dropped => some (.did row.notificationId (.ended .dropped))

/-- What the new rows of a batch tell. -/
def acceptedEvents : List Notification → List Event
  | [] => []
  | rows => [.accepted (rows.map (·.order))]

/-- The answer of the provider to the worker's attempt. -/
def Worker.answeredEvents (x : Worker) (result : ProviderResult) : List Event :=
  x.flight?.toList.map fun f => .did f.loaded.id (.answered f.loaded.attempts result)

def answeredEvents (s : State) : Action → List Event
  | .worker w (.answer result) => (s.workers w).answeredEvents result
  | .worker w (.sendRaises error) => (s.workers w).answeredEvents (exceptionResult error)
  | _ => []

/-- What a step tells: the new notifications, what is new in the history, the new calls, and what
the provider answers. -/
def told (s : State) (a : Action) (s' : State) : List Event :=
  acceptedEvents (s'.store.notifications.rows.drop s.store.notifications.rows.length) ++
    (s'.store.history.drop s.store.history.length).filterMap (·.event) ++
    (s'.calls.drop s.calls.length).map (fun c => .did c.idempotencyKey (.handed c)) ++
    answeredEvents s a

theorem told_of {rows : List Notification} {history : List NotificationStatusHistory}
    {calls : List ProviderCall}
    (hn : s'.store.notifications.rows.drop s.store.notifications.rows.length = rows)
    (hh : s'.store.history = s.store.history ++ history) (hc : s'.calls = s.calls ++ calls) :
    told s a s' = acceptedEvents rows ++ history.filterMap (·.event) ++
      calls.map (fun c => .did c.idempotencyKey (.handed c)) ++ answeredEvents s a := by
  rw [told, hn, hh, hc, List.drop_left, List.drop_left]

/-! ## The entry of a notification -/

/-- What the book knows of a row. -/
def Notification.entered (n : Notification) : Order × Nat × Option Ending :=
  (n.order, n.attempts, n.status.ending)

/-- The entry says what the row of the notification and its calls do. -/
structure Entry.Matches (e : Entry) (n : Notification) (calls : List ProviderCall) : Prop where
  row : (e.order, e.attempts, e.ending) = n.entered
  handed : e.handed = calls.map (·.attempt)
  answers : ∀ a ∈ e.answers, a.1 ∈ e.handed

/-- The entry says how far the attempt in flight is. -/
structure Entry.Records (e : Entry) (f : Flight) : Prop where
  called : f.called = true → f.loaded.attempts ∈ e.handed
  unanswered : f.result = none → f.loaded.attempts ∉ e.answers.map (·.1)
  answered : ∀ result, f.result = some result → (f.loaded.attempts, result) ∈ e.answers

/-- There is an entry for a stored notification only, and it says what is held of it. -/
structure Lifecycle.Mirrors (l : Lifecycle) (o : Option Entry) : Prop where
  absent : l.row = none → o = none
  row : ∀ n, l.row = some n → ∃ e, o = some e ∧ e.Matches n l.calls
  flights : ∀ w f, l.flights w = some f → ∃ e, o = some e ∧ e.Records f

/-- The book says what the system holds. -/
def Mirrors (s : State) (x : Book) : Prop := ∀ id, (s.lifecycle id).Mirrors (x id)

theorem Entry.Matches.order {calls : List ProviderCall} (h : e.Matches n calls) :
    e.order = n.order := congrArg Prod.fst h.row

theorem Entry.Matches.attempts {calls : List ProviderCall} (h : e.Matches n calls) :
    e.attempts = n.attempts := congrArg (fun t => t.2.1) h.row

theorem Entry.Matches.ending {calls : List ProviderCall} (h : e.Matches n calls) :
    e.ending = n.status.ending := congrArg (fun t => t.2.2) h.row

/-- `f'` is as far as `f`. -/
def Flight.AsFar (f' f : Flight) : Prop :=
  f'.loaded = f.loaded ∧ f'.called = f.called ∧ f'.result = f.result

theorem Entry.Records.of_asFar {f' : Flight} (h : e.Records f) (hsame : f'.AsFar f) :
    e.Records f' := by
  obtain ⟨hloaded, hcalled, hresult⟩ := hsame
  refine ⟨?_, ?_, ?_⟩
  · rw [hloaded, hcalled]
    exact h.called
  · rw [hloaded, hresult]
    exact h.unanswered
  · rw [hloaded, hresult]
    exact h.answered

theorem ending_of_open (h : n.isFinal = false) : n.status.ending = none := by
  cases hstatus : n.status with
  | queued | sent => rfl
  | delivered | dropped => simp [Notification.isFinal, hstatus] at h

theorem Entry.Matches.ended {calls : List ProviderCall} {ending : Ending} (h : e.Matches n calls)
    (hrow : n'.entered = (n.order, n.attempts, some ending)) :
    (e.after (.ended ending)).Matches n' calls where
  row := by
    rw [hrow, ← h.order, ← h.attempts]
    rfl
  handed := h.handed
  answers := h.answers

theorem Entry.Matches.begun {calls : List ProviderCall} (h : e.Matches n calls)
    (hrow : n'.entered = (n.order, n.attempts + 1, n.status.ending)) :
    (e.after .begun).Matches n' calls where
  row := by
    rw [hrow, ← h.order, ← h.attempts, ← h.ending]
    rfl
  handed := h.handed
  answers := h.answers

/-- A deed for another attempt leaves what is recorded of this one. -/
theorem Entry.Records.after (h : e.Records f)
    (hne : ∀ k result, deed = .answered k result → f.loaded.attempts ≠ k) :
    (e.after deed).Records f := by
  cases deed with
  | begun | ended => exact ⟨h.called, h.unanswered, h.answered⟩
  | handed call =>
    exact ⟨fun hc => List.mem_append_left _ (h.called hc), h.unanswered, h.answered⟩
  | answered k result =>
    refine ⟨h.called, fun hr => ?_, fun r hr => List.mem_append_left _ (h.answered r hr)⟩
    have hk := hne k result rfl
    simpa [Entry.after, hk] using h.unanswered hr

theorem Lifecycle.Mirrors.of_same {l l' : Lifecycle} {o : Option Entry} (h : l.Mirrors o)
    (hrow : l'.row.map (·.entered) = l.row.map (·.entered)) (hcalls : l'.calls = l.calls)
    (hflights : ∀ w f, l'.flights w = some f → ∃ e, o = some e ∧ e.Records f) :
    l'.Mirrors o where
  absent hnone := by
    rw [hnone] at hrow
    exact h.absent (Option.map_eq_none_iff.1 hrow.symm)
  row n hn := by
    rw [hn] at hrow
    obtain ⟨m, hm, heq⟩ := Option.map_eq_some_iff.1 hrow.symm
    obtain ⟨e, he, hmatch⟩ := h.row m hm
    exact ⟨e, he, hmatch.row.trans heq, hcalls ▸ hmatch.handed, hmatch.answers⟩
  flights := hflights

theorem mirrors_quiet (hx : Mirrors s x)
    (hrow : ∀ id, (s'.store.notifications.get id).map (·.entered) =
      (s.store.notifications.get id).map (·.entered)) (hcalls : s'.calls = s.calls)
    (hflights : ∀ w f', (s'.workers w).flight? = some f' →
      ∃ f, (s.workers w).flight? = some f ∧ f'.AsFar f) : Mirrors s' x := by
  intro id
  refine (hx id).of_same (hrow id) (by simp [State.lifecycle, State.callsOf, hcalls]) ?_
  intro w f' hflight
  obtain ⟨hf', hid⟩ := flightOf_eq_some.1 hflight
  obtain ⟨f, hf, hfar⟩ := hflights w f' hf'
  obtain ⟨e, he, hrec⟩ := (hx id).flights w f (flightOf_eq_some.2 ⟨hf, hfar.1 ▸ hid⟩)
  exact ⟨e, he, hrec.of_asFar hfar⟩

theorem mirrors_did (hx : Mirrors s x) (he : x id = some e)
    (hget : s'.store.notifications.get id = some n')
    (hmatch : (e.after deed).Matches n' (s'.callsOf id))
    (hother : ∀ k, k ≠ id → s'.store.notifications.get k = s.store.notifications.get k ∧
      s'.callsOf k = s.callsOf k)
    (hflights : ∀ w f', (s'.workers w).flight? = some f' →
      (f'.loaded.id = id ∧ (e.after deed).Records f') ∨
        ∃ f, (s.workers w).flight? = some f ∧ f'.AsFar f ∧
          ∀ k result, deed = .answered k result → f.loaded.id = id → f.loaded.attempts ≠ k) :
    Mirrors s' (Function.update x id (some (e.after deed))) := by
  have flight (k : Uuid) (w : Nat) (f' : Flight) (hflight : (s'.lifecycle k).flights w = some f') :
      ∃ e', Function.update x id (some (e.after deed)) k = some e' ∧ e'.Records f' := by
    obtain ⟨hf', rfl⟩ := flightOf_eq_some.1 hflight
    rcases hflights w f' hf' with ⟨hid, hrec⟩ | ⟨f, hf, hfar, hne⟩
    · exact ⟨_, by rw [hid, Function.update_self], hrec⟩
    · obtain ⟨e', he', hrec⟩ := (hx f.loaded.id).flights w f (flightOf_eq_some.2 ⟨hf, rfl⟩)
      rw [hfar.1]
      by_cases hid : f.loaded.id = id
      · rw [hid] at he' ⊢
        obtain rfl := Option.some.inj (he.symm.trans he')
        rw [Function.update_self]
        refine ⟨_, rfl, (hrec.after fun k result hdeed => ?_).of_asFar hfar⟩
        exact hne k result hdeed hid
      · rw [Function.update_of_ne hid]
        exact ⟨e', he', hrec.of_asFar hfar⟩
  intro k
  by_cases hk : k = id
  · subst hk
    refine ⟨fun hnone => ?_, fun n hn => ?_, flight k⟩
    · cases hnone.symm.trans hget
    · obtain rfl := Option.some.inj (hn.symm.trans hget)
      exact ⟨_, Function.update_self .., hmatch⟩
  · obtain ⟨hrow, hcalls⟩ := hother k hk
    have hsame : Function.update x id (some (e.after deed)) k = x k := Function.update_of_ne hk ..
    rw [hsame]
    exact (hx k).of_same (congrArg _ hrow) hcalls fun w f' hf' => hsame ▸ flight k w f' hf'

/-! ## The steps -/

/-- The events of the step are a run of the contract, to a book that says what the system then
holds. -/
def Kept (env : Deployment) (late : Bool) (s : State) (a : Action) (s' : State) (x : Book) : Prop :=
  ∃ y, (contract env.maxRetries late).Run Machine.Always x (told s a s') y ∧ Mirrors s' y

/-- The worker's attempt holds the row, unless late calls and results are allowed. -/
def Held (late : Bool) (s : State) (w : Nat) : Prop :=
  ∀ f, (s.workers w).flight? = some f →
    late = true ∨ s.store.notifications.get f.loaded.id = some f.loaded

section steps

variable {late : Bool}

theorem kept_quiet (hx : Mirrors s x)
    (hrows : s'.store.notifications.rows.length = s.store.notifications.rows.length)
    (hrow : ∀ id, (s'.store.notifications.get id).map (·.entered) =
      (s.store.notifications.get id).map (·.entered))
    (hh : s'.store.history = s.store.history) (hc : s'.calls = s.calls)
    (ha : answeredEvents s a = [])
    (hflights : ∀ w f', (s'.workers w).flight? = some f' →
      ∃ f, (s.workers w).flight? = some f ∧ f'.AsFar f) : Kept env late s a s' x := by
  have htold : told s a s' = [] := by
    have hnone : s'.store.notifications.rows.drop s.store.notifications.rows.length = [] :=
      List.drop_eq_nil_of_le hrows.le
    rw [told_of hnone (hh.trans (List.append_nil _).symm) (hc.trans (List.append_nil _).symm), ha]
    rfl
  exact ⟨x, htold ▸ .nil, mirrors_quiet hx hrow hc hflights⟩

theorem kept_did (id : Uuid) (deed : Deed) (hx : Mirrors s x) (he : x id = some e)
    (hallow : e.Allows env.maxRetries late deed) (htold : told s a s' = [.did id deed])
    (hget : s'.store.notifications.get id = some n')
    (hmatch : (e.after deed).Matches n' (s'.callsOf id))
    (hother : ∀ k, k ≠ id → s'.store.notifications.get k = s.store.notifications.get k ∧
      s'.callsOf k = s.callsOf k)
    (hflights : ∀ w f', (s'.workers w).flight? = some f' →
      (f'.loaded.id = id ∧ (e.after deed).Records f') ∨
        ∃ f, (s.workers w).flight? = some f ∧ f'.AsFar f ∧
          ∀ k result, deed = .answered k result → f.loaded.id = id → f.loaded.attempts ≠ k) :
    Kept env late s a s' x :=
  ⟨_, htold ▸ Machine.Run.single trivial (contract_did he hallow),
    mirrors_did hx he hget hmatch hother hflights⟩

theorem entry_of_flight (h : (machine env).Reach Machine.Always s) (hx : Mirrors s x)
    (hf : (s.workers w).flight? = some f) :
    ∃ m e, s.store.notifications.get f.loaded.id = some m ∧ x f.loaded.id = some e ∧
      e.Matches m (s.callsOf f.loaded.id) ∧ e.Records f := by
  obtain ⟨-, m, hm⟩ := (referenced_reach h).flights w f hf
  obtain ⟨e, he, hmatch⟩ := (hx f.loaded.id).row m hm
  obtain ⟨e', he', hrec⟩ := (hx f.loaded.id).flights w f (flightOf_eq_some.2 ⟨hf, rfl⟩)
  obtain rfl := Option.some.inj (he.symm.trans he')
  exact ⟨m, e, hm, he, hmatch, hrec⟩

/-- While the attempt holds the row, the notification is open and the attempt its last one. -/
theorem open_of_held (h : (machine env).Reach Machine.Always s)
    (hf : (s.workers w).flight? = some f) {m : Notification}
    (hm : s.store.notifications.get f.loaded.id = some m)
    (hmatch : e.Matches m (s.callsOf f.loaded.id)) (hheld : Held late s w) :
    e.Open late ∧ e.Current late f.loaded.attempts := by
  rcases hheld f hf with hlate | hrow
  · exact ⟨.inl hlate, .inl hlate⟩
  · obtain rfl := Option.some.inj (hm.symm.trans hrow)
    have hsent := ((sound_reach h f.loaded.id).flights w f (flightOf_eq_some.2 ⟨hf, rfl⟩)).1
    refine ⟨.inr ?_, .inr hmatch.attempts.symm⟩
    rw [hmatch.ending, hsent]
    rfl

theorem kept_send (h : (machine env).Reach Machine.Always s) (hx : Mirrors s x) {d : Delivery}
    (hw : s.workers w = .reserved d n) (hheld : Held late s w) :
    Kept env late s (.worker w .send)
      { s.setWorker w (.calling d n) with calls := s.calls ++ [providerCall n] } x := by
  have hf : (s.workers w).flight? = some ⟨n, d.message.payload, false, none⟩ :=
    congrArg Worker.flight? hw
  obtain ⟨m, e, hm, he, hmatch, hrec⟩ := entry_of_flight h hx hf
  obtain ⟨hopen, hcurrent⟩ := open_of_held h hf hm hmatch hheld
  have hcounted := counted_reach h n.id
  have hflight := flightOf_eq_some.2 ⟨hf, rfl⟩
  have hcall : providerCall n = e.order.call n.attempts := by
    obtain ⟨m', hm', hsame⟩ := (copied_reach h n.id).flights w _ hflight
    obtain rfl := Option.some.inj (hm.symm.trans hm')
    have hs : n.subscriberId = m.subscriberId := Notification.column_eq hsame (·.subscriberId)
    have hmsg : n.message = m.message := Notification.column_eq hsame (·.message)
    rw [hmatch.order, providerCall, hs, hmsg]
    simp only [Order.call, Notification.order, Table.get_key hm]
  have hfresh : n.attempts ∉ e.handed := by
    rw [hmatch.handed]
    intro hk
    obtain ⟨c, hc, heq⟩ := List.mem_map.1 hk
    exact hcounted.uncalled w _ hflight rfl c hc heq
  have hbounds := hcounted.flights w _ hflight
  refine kept_did n.id (.handed (providerCall n)) hx he ?_ ?_ hm ?_ ?_ ?_
  · refine ⟨hcall, hbounds.1, ?_, hfresh, hopen, hcurrent⟩
    have hle := hbounds.2
    simp only [Lifecycle.attempts, State.lifecycle, hm] at hle
    rw [hmatch.attempts]
    exact hle
  · exact Eq.trans (told_of (List.drop_length ..) (List.append_nil _).symm rfl) rfl
  · refine ⟨hmatch.row, ?_, fun a ha => List.mem_append_left _ (hmatch.answers a ha)⟩
    simp [Entry.after, State.callsOf, providerCall, hmatch.handed]
  · intro k hk
    exact ⟨rfl, by simp [State.callsOf, providerCall, List.filter_append, Ne.symm hk]⟩
  · intro v f' hf'
    by_cases hv : v = w
    · subst hv
      rw [setWorker_self] at hf'
      cases hf'
      refine .inl ⟨rfl, fun _ => by simp [Entry.after, providerCall], hrec.unanswered, ?_⟩
      intro result hresult
      cases hresult
    · rw [setWorker_ne hv] at hf'
      exact .inr ⟨f', hf', ⟨rfl, rfl, rfl⟩, fun k result hdeed => by cases hdeed⟩

theorem kept_answer (h : (machine env).Reach Machine.Always s) (hx : Mirrors s x) {d : Delivery}
    {result : ProviderResult} (hw : s.workers w = .calling d n)
    (ha : answeredEvents s a = (s.workers w).answeredEvents result) :
    Kept env late s a (s.setWorker w (.responded d n result)) x := by
  have hf : (s.workers w).flight? = some ⟨n, d.message.payload, true, none⟩ :=
    congrArg Worker.flight? hw
  obtain ⟨m, e, hm, he, hmatch, hrec⟩ := entry_of_flight h hx hf
  have hhanded : n.attempts ∈ e.handed := hrec.called rfl
  have hfresh : n.attempts ∉ e.answers.map (·.1) := hrec.unanswered rfl
  refine kept_did n.id (.answered n.attempts result) hx he ⟨hhanded, hfresh⟩ ?_ hm
    ⟨hmatch.row, hmatch.handed, ?_⟩ (fun k _ => ⟨rfl, rfl⟩) ?_
  · refine Eq.trans (told_of (List.drop_length ..) (List.append_nil _).symm
      (List.append_nil _).symm) ?_
    rw [ha, Worker.answeredEvents, hf]
    rfl
  · intro a ha
    rcases List.mem_append.1 ha with ha | ha
    · exact hmatch.answers a ha
    · rw [List.mem_singleton.1 ha]
      exact hhanded
  · intro v f' hf'
    by_cases hv : v = w
    · subst hv
      rw [setWorker_self] at hf'
      cases hf'
      refine .inl ⟨rfl, fun _ => hhanded, fun hnone => (by cases hnone), fun r hr => ?_⟩
      cases hr
      exact List.mem_append_right _ (List.mem_singleton.2 rfl)
    · rw [setWorker_ne hv] at hf'
      refine .inr ⟨f', hf', ⟨rfl, rfl, rfl⟩, fun k r hdeed hid heq => ?_⟩
      cases hdeed
      exact hv ((counted_reach h n.id).distinct v w f' _ (flightOf_eq_some.2 ⟨hf', hid⟩)
        (flightOf_eq_some.2 ⟨hf, rfl⟩) heq)

/-! ### Transactions -/

theorem length_saveNotification {st : Store} {loaded updated : Notification} :
    (st.saveNotification loaded updated).notifications.rows.length =
      st.notifications.rows.length := by
  simp [Store.saveNotification, Table.modify, Table.rows_modifyWhere]

/-- What the book knows of a saved row: an attempt count or a status that the session has not
changed stays the stored one. -/
theorem entered_writeBack {loaded updated stored : Notification} :
    (Notification.writeBack loaded updated stored).entered =
      (stored.order, writeColumn loaded.attempts updated.attempts stored.attempts,
        (writeColumn loaded.status updated.status stored.status).ending) := rfl

theorem kept_reserve (h : (machine env).Reach Machine.Always s) (hx : Mirrors s x) {d : Delivery}
    {t₁ t₂ t₃ : Time} {ids : EventIds} {st : Store} {out : Option Notification}
    (hw : s.workers w = .received d)
    (hres : Reserved env.toSettings s.store d.message.payload.notificationId d.message.payload
      t₁ t₂ t₃ ids st out) :
    Kept env late s (.worker w (.reserve t₁ t₂ t₃ ids)) (afterReserve s w d t₃ (.ok (st, out)))
      x := by
  have others {v : Nat} {f' : Flight} (hv : v ≠ w)
      (hf' : ((afterReserve s w d t₃ (.ok (st, out))).workers v).flight? = some f') :
      ∃ f, (s.workers v).flight? = some f ∧ f'.AsFar f := by
    rw [afterReserve_flight, if_neg hv] at hf'
    exact ⟨f', hf', rfl, rfl, rfl⟩
  have elsewhere {n : Notification} (hid : n.id = d.message.payload.notificationId) (k : Uuid)
      (hk : k ≠ n.id) :
      (afterReserve s w d t₃ (.ok (st, out))).store.notifications.get k =
          s.store.notifications.get k ∧
        (afterReserve s w d t₃ (.ok (st, out))).callsOf k = s.callsOf k := by
    refine ⟨?_, by simp only [State.callsOf, afterReserve_calls]⟩
    rw [afterReserve_store, reserved_get_ne hres (hid ▸ hk)]
  cases hres with
  | missing | final | covered | deferred =>
    refine kept_quiet hx rfl (fun _ => rfl) rfl rfl rfl fun v f' hf' => ?_
    by_cases hv : v = w
    · subst hv
      rw [afterReserve_flight, if_pos rfl] at hf'
      cases hf'
    · exact others hv hf'
  | @refused n outbox hget hopen _ hmax hins =>
    have hid := Table.get_key hget
    rw [← hid] at hget
    obtain ⟨e, he, hmatch⟩ := (hx n.id).row n hget
    have hallow : e.Allows env.maxRetries late (.ended .dropped) :=
      ⟨.inr (hmatch.ending.trans (ending_of_open hopen)), .inr (.inl (hmatch.attempts ▸ hmax))⟩
    refine kept_did n.id (.ended .dropped) hx he hallow ?_ (get_saveNotification_self _ hget)
      (hmatch.ended ?_) (elsewhere hid) fun v f' hf' => ?_
    · exact Eq.trans (told_of (List.drop_eq_nil_of_le length_saveNotification.le) rfl
        (List.append_nil _).symm) rfl
    · simp [entered_writeBack, Notification.droppedBeforeProvider, NotificationStatus.ending]
    · by_cases hv : v = w
      · subst hv
        rw [afterReserve_flight, if_pos rfl] at hf'
        cases hf'
      · obtain ⟨f, hf, hfar⟩ := others hv hf'
        exact .inr ⟨f, hf, hfar, fun k result hdeed => by cases hdeed⟩
  | @attempt n lockUntil hget hopen hlock hmax hadd =>
    have hid := Table.get_key hget
    rw [← hid] at hget
    obtain ⟨e, he, hmatch⟩ := (hx n.id).row n hget
    have hallow : e.Allows env.maxRetries late .begun :=
      ⟨hmatch.ending.trans (ending_of_open hopen), hmatch.attempts ▸ hmax⟩
    have hcounted := counted_reach h n.id
    refine kept_did n.id .begun hx he hallow ?_ (get_saveNotification_self _ hget)
      (hmatch.begun ?_) (elsewhere hid) fun v f' hf' => ?_
    · exact Eq.trans (told_of (List.drop_eq_nil_of_le length_saveNotification.le) rfl
        (List.append_nil _).symm) rfl
    · rw [entered_writeBack, ending_of_open hopen]
      simp [Notification.reserved, NotificationStatus.ending]
    · by_cases hv : v = w
      · subst hv
        rw [afterReserve_flight, if_pos rfl] at hf'
        cases hf'
        refine .inl ⟨rfl, fun hcalled => (by cases hcalled), fun _ hk => ?_,
          fun r hr => by cases hr⟩
        -- no attempt beyond the stored count has been handed over
        obtain ⟨a, ha, heq⟩ := List.mem_map.1 hk
        have hhanded := hmatch.answers a ha
        rw [heq, hmatch.handed] at hhanded
        obtain ⟨c, hc, hattempt⟩ := List.mem_map.1 hhanded
        have hle := (hcounted.calls c hc).2
        simp only [Lifecycle.attempts, State.lifecycle, hget, Option.map_some,
          Option.getD_some] at hle
        simp only [Notification.reserved] at hattempt
        omega
      · obtain ⟨f, hf, hfar⟩ := others hv hf'
        exact .inr ⟨f, hf, hfar, fun k result hdeed => by cases hdeed⟩

theorem kept_apply (h : (machine env).Reach Machine.Always s) (hx : Mirrors s x) {d : Delivery}
    {result : ProviderResult} {t₁ t₂ : Time} {ids : EventIds} {st : Store}
    (hw : s.workers w = .responded d n result) (hheld : Held late s w)
    (happ : Applied env.toSettings s.store d.message.payload.notificationId d.message.payload n
      result t₁ t₂ ids st) :
    Kept env late s (.worker w (.apply t₁ t₂ ids)) (afterApply s w d t₂ (.ok st)) x := by
  have hf : (s.workers w).flight? = some ⟨n, d.message.payload, true, some result⟩ :=
    congrArg Worker.flight? hw
  obtain ⟨m, e, hm, he, hmatch, hrec⟩ := entry_of_flight h hx hf
  obtain ⟨hopen, hcurrent⟩ := open_of_held h hf hm hmatch hheld
  have hanswer : (n.attempts, result) ∈ e.answers := hrec.answered result rfl
  have hsent : n.status = .sent :=
    ((sound_reach h n.id).flights w _ (flightOf_eq_some.2 ⟨hf, rfl⟩)).1
  have hle : n.attempts ≤ (s.lifecycle n.id).attempts :=
    ((counted_reach h n.id).flights w _ (flightOf_eq_some.2 ⟨hf, rfl⟩)).2
  have kept {v : Nat} {f' : Flight}
      (hf' : ((afterApply s w d t₂ (.ok st)).workers v).flight? = some f') :
      ∃ f, (s.workers v).flight? = some f ∧ f'.AsFar f := by
    rw [afterApply_flight] at hf'
    split at hf'
    · cases hf'
    · exact ⟨f', hf', rfl, rfl, rfl⟩
  have elsewhere (k : Uuid) (hk : k ≠ n.id) :
      (afterApply s w d t₂ (.ok st)).store.notifications.get k = s.store.notifications.get k ∧
        (afterApply s w d t₂ (.ok st)).callsOf k = s.callsOf k :=
    ⟨applied_get_ne happ hk, rfl⟩
  cases happ with
  | guarded => exact kept_quiet hx rfl (fun _ => rfl) rfl rfl rfl fun v f' hf' => kept hf'
  | delivered _ hdel =>
    have hallow : e.Allows env.maxRetries late (.ended .delivered) :=
      ⟨hopen, _, hanswer, hdel, hcurrent⟩
    refine kept_did n.id (.ended .delivered) hx he hallow ?_ (get_saveNotification_self _ hm)
      (hmatch.ended ?_) elsewhere fun v f' hf' => ?_
    · exact Eq.trans (told_of (List.drop_eq_nil_of_le length_saveNotification.le) rfl
        (List.append_nil _).symm) rfl
    · simp [entered_writeBack, Notification.markedDelivered, hsent, writeColumn,
        NotificationStatus.ending]
    · obtain ⟨f, hf, hfar⟩ := kept hf'
      exact .inr ⟨f, hf, hfar, fun k r hdeed => by cases hdeed⟩
  | @retried delay lockUntil outbox _ hdel hretry hins =>
    refine kept_quiet hx length_saveNotification (fun k => ?_) rfl rfl rfl fun v f' hf' => kept hf'
    by_cases hk : k = n.id
    · subst hk
      have hget := get_saveNotification_self (n.awaitingRetry result lockUntil) hm
      rw [hm]
      refine (congrArg _ hget).trans ?_
      rw [Option.map_some, Option.map_some, entered_writeBack]
      simp [Notification.awaitingRetry, Notification.withError, Notification.entered]
    · rw [(elsewhere k hk).1]
  | dropped _ hdel hretry hins =>
    have hallow : e.Allows env.maxRetries late (.ended .dropped) := by
      refine ⟨hopen, ?_⟩
      by_cases hmax : env.maxRetries ≤ n.attempts
      · have hattempts : (s.lifecycle n.id).attempts = e.attempts := by
          simp [Lifecycle.attempts, State.lifecycle, hm, hmatch.attempts]
        rw [hattempts] at hle
        exact .inr (.inl (hmax.trans (by exact_mod_cast hle)))
      · have htemp : result.errorType ≠ some .temporary := fun htemp =>
          retryUntil_ne_none htemp (not_le.1 hmax) hretry
        cases hsuccess : result.success with
        | false =>
          exact .inl ⟨_, hanswer, by simp [ProviderResult.refuses, hsuccess, htemp], hcurrent⟩
        | true =>
          -- an accepted message is dropped all the same
          rw [hsuccess, Bool.true_and] at hdel
          refine .inr (.inr ⟨_, hanswer, ?_, hcurrent⟩)
          simp [ProviderResult.acceptsOnly, hsuccess, hdel, htemp]
    refine kept_did n.id (.ended .dropped) hx he hallow ?_ (get_saveNotification_self _ hm)
      (hmatch.ended ?_) elsewhere fun v f' hf' => ?_
    · exact Eq.trans (told_of (List.drop_eq_nil_of_le length_saveNotification.le) rfl
        (List.append_nil _).symm) rfl
    · simp [entered_writeBack, Notification.droppedByResult, Notification.withError, hsent,
        writeColumn, NotificationStatus.ending]
    · obtain ⟨f, hf, hfar⟩ := kept hf'
      exact .inr ⟨f, hf, hfar, fun k r hdeed => by cases hdeed⟩

/-! ### Requests -/

theorem acceptedEvents_of_mem {rows : List Notification} (h : n ∈ rows) :
    acceptedEvents rows = [.accepted (rows.map (·.order))] := by
  cases rows with
  | nil => cases h
  | cons => rfl

section commit

variable {request : BulkNotificationRequest} {key requestHash : String} {reservation : Reservation}
  {ids : Nat → Uuid} {stamps : Nat → Time} {st : Store} {response : BulkNotificationResponse}

theorem acceptable_of_commit (hx : Mirrors s x)
    (hnew : ∀ n ∈ newNotifications request ids stamps, ¬ s.store.Has n.id)
    (hfresh : s.store.Fresh (bulkIds ids (distinctRecipients request.recipientIds).length)) :
    x.Acceptable ((newNotifications request ids stamps).map (·.order)) := by
  refine ⟨?_, ?_, ?_, ?_, ?_⟩
  · obtain ⟨n, hn, -⟩ := exists_newNotification request ids stamps
    exact List.ne_nil_of_mem (List.mem_map.2 ⟨n, hn, rfl⟩)
  · rw [List.map_map]
    exact newNotifications_nodup hfresh stamps
  · intro o ho
    obtain ⟨n, hn, rfl⟩ := List.mem_map.1 ho
    exact (hx n.id).absent (Option.eq_none_iff_forall_ne_some.2 fun m hm => hnew n hn ⟨m, hm⟩)
  · have hnodup : ((newNotifications request ids stamps).map (·.subscriberId)).Nodup := by
      rw [newNotifications_subscribers]
      exact nodup_eraseDups _
    rw [List.map_map]
    exact hnodup
  · intro o ho o' ho'
    obtain ⟨n, hn, rfl⟩ := List.mem_map.1 ho
    obtain ⟨n', hn', rfl⟩ := List.mem_map.1 ho'
    obtain ⟨i, r, -, rfl⟩ := mem_newNotifications hn
    obtain ⟨j, r', -, rfl⟩ := mem_newNotifications hn'
    rfl

variable (hcom : commitBulk s.store request key requestHash reservation ids stamps =
  .ok (st, response))

include hcom

theorem told_commit (hst : s'.store = st) (hc : s'.calls = s.calls)
    (ha : answeredEvents s a = []) :
    told s a s' = [.accepted ((newNotifications request ids stamps).map (·.order))] := by
  obtain ⟨hinsert, hhistory, -⟩ := commitBulk_delivery hcom
  obtain ⟨n, hn, -⟩ := exists_newNotification request ids stamps
  have hrows : s'.store.notifications.rows.drop s.store.notifications.rows.length =
      newNotifications request ids stamps := by
    rw [hst, Table.insertAll?_rows hinsert, List.drop_left]
  have hqueued : (newHistory request ids stamps).filterMap (·.event) = [] := by
    refine List.filterMap_eq_nil_iff.2 fun row hrow => ?_
    obtain ⟨i, r, -, rfl⟩ := mem_newHistory hrow
    rfl
  rw [told_of hrows (hst ▸ hhistory) (hc.trans (List.append_nil _).symm), hqueued, ha,
    acceptedEvents_of_mem hn]
  rfl

theorem mirrors_commit (hr : Referenced s) (hx : Mirrors s x)
    (hnew : ∀ n ∈ newNotifications request ids stamps, ¬ s.store.Has n.id)
    (hnd : ((newNotifications request ids stamps).map (·.id)).Nodup) (hst : s'.store = st)
    (hw : s'.workers = s.workers) (hc : s'.calls = s.calls) :
    Mirrors s' (x.accept ((newNotifications request ids stamps).map (·.order))) := by
  have hsame (k : Uuid) : (s'.lifecycle k).calls = (s.lifecycle k).calls ∧
      (s'.lifecycle k).flights = (s.lifecycle k).flights := by
    simp only [State.lifecycle, State.callsOf, hc, hw, and_self]
  obtain ⟨hinsert, -, -⟩ := commitBulk_delivery hcom
  intro k
  obtain ⟨hcalls, hflights⟩ := hsame k
  by_cases hk : ∃ n ∈ newNotifications request ids stamps, n.id = k
  · obtain ⟨n, hn, rfl⟩ := hk
    have hinit := lifecycle_of_not_has hr (hnew n hn)
    have hget : s'.store.notifications.get n.id = some n := hst ▸ commitBulk_get hcom hn
    have he := Book.accept_self (x := x) (by rwa [List.map_map])
      (List.mem_map.2 ⟨n, hn, rfl⟩ : n.order ∈ (newNotifications request ids stamps).map (·.order))
    rw [hinit] at hcalls hflights
    refine ⟨fun hnone => ?_, fun m hm => ?_, fun w f hf => ?_⟩
    · cases hnone.symm.trans hget
    · obtain rfl := Option.some.inj (hm.symm.trans hget)
      refine ⟨_, he, ?_, ?_, fun a ha => by cases ha⟩
      · obtain ⟨i, r, -, rfl⟩ := mem_newNotifications hn
        rfl
      · rw [hcalls]
        rfl
    · rw [hflights] at hf
      cases hf
  · have hold : ∀ o ∈ (newNotifications request ids stamps).map (·.order), o.id ≠ k := by
      intro o ho heq
      obtain ⟨n, hn, rfl⟩ := List.mem_map.1 ho
      exact hk ⟨n, hn, heq⟩
    rw [Book.accept_ne hold]
    have hrow : (s'.lifecycle k).row = (s.lifecycle k).row := by
      change s'.store.notifications.get k = s.store.notifications.get k
      rw [hst]
      cases hg : s.store.notifications.get k with
      | some n => exact Table.get_insertAll? hinsert hg
      | none =>
        rw [Table.get_eq_none] at hg ⊢
        intro m hm heq
        rcases (Table.mem_insertAll? hinsert).1 hm with hm | hm
        · exact hg m hm heq
        · exact hk ⟨m, hm, heq⟩
    exact (hx k).of_same (by rw [hrow]) hcalls fun w f hf => (hx k).flights w f (hflights ▸ hf)

end commit

theorem kept_commit (h : (machine env).Reach Machine.Always s) (hx : Mirrors s x) {q : Nat}
    {r : Request} {reservation : Reservation} {ids : Nat → Uuid} {stamps : Nat → Time} {st : Store}
    {response : BulkNotificationResponse}
    (hfresh : s.store.Fresh (bulkIds ids (distinctRecipients r.body.recipientIds).length))
    (hcom : commitBulk s.store r.body r.key (env.requestHash r.body) reservation ids stamps =
      .ok (st, response)) :
    Kept env late s (.request q (.commit ids stamps))
      { s.setRequest q { r with phase := .releasing (.accepted response) } with store := st }
      x := by
  have hnew (n : Notification) (hn : n ∈ newNotifications r.body ids stamps) :
      ¬ s.store.Has n.id := by
    rintro ⟨m, hm⟩
    exact newNotification_fresh hfresh hn
      (Table.get_key hm ▸ mem_uuids_of_notification (Table.mem_of_get hm))
  have hacc := acceptable_of_commit hx hnew hfresh
  have htold : told s (.request q (.commit ids stamps))
      { s.setRequest q { r with phase := .releasing (.accepted response) } with store := st } =
        [.accepted ((newNotifications r.body ids stamps).map (·.order))] :=
    told_commit hcom rfl rfl rfl
  exact ⟨_, htold ▸ Machine.Run.single trivial (contract_accepted hacc),
    mirrors_commit hcom (referenced_reach h) hx hnew (newNotifications_nodup hfresh stamps)
      rfl rfl rfl⟩

/-! ### Every step -/

theorem kept_still (hx : Mirrors s x) (hn : s'.store.notifications = s.store.notifications)
    (hh : s'.store.history = s.store.history) (hc : s'.calls = s.calls)
    (ha : answeredEvents s a = [])
    (hw : ∀ v f', (s'.workers v).flight? = some f' → (s.workers v).flight? = some f') :
    Kept env late s a s' x :=
  kept_quiet hx (by rw [hn]) (fun _ => by rw [hn]) hh hc ha fun v f' hf' =>
    ⟨f', hw v f' hf', rfl, rfl, rfl⟩

theorem kept_worker {b : WorkerAction} (h : (machine env).Reach Machine.Always s)
    (hx : Mirrors s x) (hheld : b = .send ∨ (∃ t₁ t₂ ids, b = .apply t₁ t₂ ids) → Held late s w)
    (hstep : workerStep env s w b = some s') : Kept env late s (.worker w b) s' x := by
  -- the worker has no attempt in flight any more, or still the same
  have gone {u : Worker} (hu : u.flight? = none) (v : Nat) (f' : Flight)
      (hf' : ((s.setWorker w u).workers v).flight? = some f') :
      (s.workers v).flight? = some f' := by
    by_cases hv : v = w
    · subst hv
      rw [setWorker_self, hu] at hf'
      cases hf'
    · rwa [setWorker_ne hv] at hf'
  cases workerStep_cases hstep with
  | get | ack | reject | crash => exact kept_still hx rfl rfl rfl rfl (gone rfl)
  | reserveRaises | applyRaises => exact kept_still hx rfl rfl rfl rfl (gone rfl)
  | disconnect =>
    refine kept_still hx rfl rfl rfl rfl fun v f' hf' => ?_
    by_cases hv : v = w
    · subst hv
      change ((s.setWorker v _).workers v).flight? = some f' at hf'
      rwa [setWorker_self, disconnected_flight] at hf'
    · change ((s.setWorker w _).workers v).flight? = some f' at hf'
      rwa [setWorker_ne hv] at hf'
  | reserve hw _ _ _ _ hres => exact kept_reserve h hx hw hres
  | send hw => exact kept_send h hx hw (hheld (.inl rfl))
  | answer hw => exact kept_answer h hx hw rfl
  | sendRaises hw => exact kept_answer h hx hw rfl
  | apply hw _ _ _ happ => exact kept_apply h hx hw (hheld (.inr ⟨_, _, _, rfl⟩)) happ

/-- **A step keeps the contract.** -/
theorem kept_step (h : (machine env).Reach Machine.Always s) (hx : Mirrors s x)
    (hheld : ∀ w, a = .worker w .send ∨ (∃ t₁ t₂ ids, a = .worker w (.apply t₁ t₂ ids)) →
      Held late s w) (hstep : step env s a = some s') : Kept env late s a s' x := by
  have still {a : Action} (ha : answeredEvents s a = []) (hw : s'.workers = s.workers)
      (hn : s'.store.notifications = s.store.notifications)
      (hh : s'.store.history = s.store.history) (hc : s'.calls = s.calls) :
      Kept env late s a s' x :=
    kept_still hx hn hh hc ha fun v f' hf' => hw ▸ hf'
  have hchange := change_of_step hstep
  cases a with
  | worker w b =>
    refine kept_worker h hx (fun hb => hheld w ?_) hstep
    rcases hb with rfl | ⟨t₁, t₂, ids, rfl⟩
    · exact .inl rfl
    · exact .inr ⟨t₁, t₂, ids, rfl⟩
  | publisher p b =>
    have hframe := publisherStep_frame (show publisherStep env s p b = some s' from hstep)
    refine still rfl hframe.workers hframe.notifications ?_ ?_
    · cases hchange with
      | quiet _ _ hh => exact hh
      | claim _ _ _ _ heq => exact heq ▸ rfl
      | recordPublished | recordRaised => rfl
    · cases hchange with
      | quiet _ _ _ _ hc => exact hc
      | claim _ _ _ _ heq => exact heq ▸ rfl
      | recordPublished | recordRaised => rfl
  | request q b =>
    have hframe := (requestStep_frame (show requestStep env s q b = some s' from hstep)).1
    cases hchange with
    | quiet _ hn hh _ hc => exact still rfl hframe.workers hn hh hc
    | commit _ _ hfresh hcom => exact kept_commit h hx hfresh hcom
  | cleaner c b =>
    have hframe := (cleanerStep_frame (show cleanerStep s c b = some s' from hstep)).1
    cases hchange with
    | quiet _ hn hh _ hc => exact still rfl hframe.workers hn hh hc
  | tick t =>
    obtain ⟨-, heq⟩ := Option.ite_none_right_eq_some.1 (show _ = some s' from hstep)
    cases heq
    exact still rfl rfl rfl rfl rfl
  | redisExpire key =>
    cases (show some _ = some s' from hstep)
    exact still rfl rfl rfl rfl rfl

end steps

/-! ## The refinement -/

/-- The system with all that it has told. -/
def toldMachine (env : Deployment) : Machine (State × List Event) Action :=
  (machine env).withEvents told

/-- A worker calls the provider, and applies its answer, while the lock of its attempt lasts. -/
def WithinLock (s : State) : Action → Prop
  | .worker w .send | .worker w (.apply _ _ _) =>
    ∀ f lockUntil, (s.workers w).flight? = some f →
      f.loaded.processingLockUntil = some lockUntil → s.now < lockUntil
  | _ => True

theorem mirrors_initial (now : Time) : Mirrors (.initial now) fun _ => none := by
  intro id
  refine ⟨fun _ => rfl, fun n hn => ?_, fun w f hf => ?_⟩
  · cases hn
  · cases hf

/-- Within the lock of its attempt a worker holds the row. -/
theorem held_of_withinLock (h : (machine env).Reach WithinLock s) (hok : WithinLock s a)
    (hw : a = .worker w .send ∨ ∃ t₁ t₂ ids, a = .worker w (.apply t₁ t₂ ids)) :
    Held false s w := by
  have hinTime : (machine env).Reach AppliesInTime s := by
    refine h.imp fun t b t' _ hb _ => ?_
    cases b with
    | worker v b =>
      cases b with
      | apply => exact hb
      | _ => trivial
    | _ => trivial
  intro f hf
  have hflight := flightOf_eq_some.2 ⟨hf, rfl⟩
  obtain ⟨-, lockUntil, hL⟩ := (sound_reach h f.loaded.id).flights w f hflight
  refine .inr (owned_reach hinTime f.loaded.id w f lockUntil hflight hL ?_)
  rcases hw with rfl | ⟨t₁, t₂, ids, rfl⟩ <;> exact hok f lockUntil hf hL

/-- **The system keeps the contract.** Whatever it tells in a run, with any number of processes in
any interleaving, crashes, duplicates and provider calls of any duration, is a run of the contract;
the book that this leads to says what the system holds. -/
theorem contract_kept {z : State × List Event}
    (h : (toldMachine env).Reach Machine.Always z) :
    ∃ y, (contract env.maxRetries true).Run Machine.Always (fun _ => none) z.2 y ∧
      Mirrors z.1 y := by
  have hsim : Machine.Simulates (machine env) Machine.Always told (contract env.maxRetries true)
      Mirrors :=
    ⟨fun s hs => by
      obtain ⟨now, rfl⟩ := hs
      exact ⟨_, rfl, mirrors_initial now⟩,
    fun s a t x hs _ hx _ hstep => kept_step hs hx (fun w _ f _ => .inl rfl) hstep⟩
  obtain ⟨x, y, rfl, hrun, hy⟩ := hsim.refines h
  exact ⟨y, hrun, hy⟩

/-- A late answer, after another worker has delivered the message: the notification ends twice. -/
theorem contract_kept_late : ∃ z : State × List Event,
    z.2.filter (· matches .did _ (.ended _)) =
        [.did 1 (.ended .delivered), .did 1 (.ended .dropped)] ∧
      ∃ y, (contract Sample.env.maxRetries true).Run Machine.Always (fun _ => none) z.2 y ∧
        Mirrors z.1 y := by
  obtain ⟨z, hrun, hz⟩ := Machine.Run.exists_of_exec_always (toldMachine Sample.env)
    (.initial 0, [])
    (Sample.attempt ++
      [.worker 0 .send, .worker 0 (.disconnect false), .worker 1 (.get .high Sample.message),
        .worker 1 (.reserve (Sample.sec 60) (Sample.sec 60) (Sample.sec 60) ⟨4, 5⟩),
        .worker 1 .send, .worker 1 (.answer Sample.deliveredResult),
        .worker 1 (.apply (Sample.sec 61) (Sample.sec 61) ⟨4, 5⟩),
        .worker 0 (.answer Sample.permanentError),
        .worker 0 (.apply (Sample.sec 62) (Sample.sec 62) ⟨4, 5⟩)])
    (fun z => z.2.filter (· matches .did _ (.ended _)) =
      [.did 1 (.ended .delivered), .did 1 (.ended .dropped)]) (by decide)
  exact ⟨z, of_decide_eq_true hz, contract_kept ⟨_, _, ⟨⟨0, rfl⟩, rfl⟩, hrun⟩⟩

/-- **Within the locks it keeps it without exceptions**: nothing is done for a notification that
has ended, and only the last attempt is handed over and ends it. -/
theorem contract_kept_in_time {z : State × List Event}
    (h : (toldMachine env).Reach (fun z a => WithinLock z.1 a) z) :
    ∃ y, (contract env.maxRetries false).Run Machine.Always (fun _ => none) z.2 y ∧
      Mirrors z.1 y := by
  have hsim : Machine.Simulates (machine env) WithinLock told (contract env.maxRetries false)
      Mirrors :=
    ⟨fun s hs => by
      obtain ⟨now, rfl⟩ := hs
      exact ⟨_, rfl, mirrors_initial now⟩,
    fun s a t x hs _ hx hok hstep =>
      kept_step hs.always hx (fun w hw => held_of_withinLock hs hok hw) hstep⟩
  obtain ⟨x, y, rfl, hrun, hy⟩ := hsim.refines h
  exact ⟨y, hrun, hy⟩

/-- The test of `WithinLock`. -/
def withinLock (s : State) : Action → Bool
  | .worker w .send | .worker w (.apply _ _ _) =>
    (s.workers w).flight?.all fun f => f.loaded.processingLockUntil.all (s.now < ·)
  | _ => true

theorem of_withinLock (h : withinLock s a = true) : WithinLock s a := by
  cases a with
  | worker w b =>
    cases b with
    | send | apply =>
      intro f lockUntil hf hL
      simpa [withinLock, hf, hL] using h
    | _ => trivial
  | _ => trivial

/-- One worker that delivers the message within its lock. -/
def Sample.delivery : List Action :=
  Sample.attempt ++ [.worker 0 .send, .worker 0 (.answer Sample.deliveredResult),
    .worker 0 (.apply (Sample.sec 5) (Sample.sec 5) ⟨4, 5⟩)]

theorem contract_kept_in_time_delivered : ∃ z : State × List Event,
    z.2.getLast? = some (.did 1 (.ended .delivered)) ∧
      ∃ y, (contract Sample.env.maxRetries false).Run Machine.Always (fun _ => none) z.2 y ∧
        Mirrors z.1 y := by
  obtain ⟨z, hrun, hz⟩ := Machine.Run.exists_of_execChecked (toldMachine Sample.env)
    (fun z a => WithinLock z.1 a) (fun z a => withinLock z.1 a) (.initial 0, []) Sample.delivery
    (fun z => z.2.getLast? = some (.did 1 (.ended .delivered))) (fun _ _ => of_withinLock)
    (by decide)
  exact ⟨z, of_decide_eq_true hz, contract_kept_in_time ⟨_, _, ⟨⟨0, rfl⟩, rfl⟩, hrun⟩⟩

/-! ## What the events of the system say -/

/-- **Every end is accounted for.** Before the system tells that a notification is delivered it has
accepted its order, handed the message to the provider for the recipient of the order, and been
told that it was delivered. Before it tells that one is dropped it has been told, in the same way,
that the message is refused; or as many attempts have begun as there may be; or it has been told
that the message is accepted, and no more. -/
theorem told_ending_accounted {z : State × List Event} {g₁ g₂ : List Event} {ending : Ending}
    (h : (toldMachine env).Reach Machine.Always z)
    (hz : z.2 = g₁ ++ .did id (.ended ending) :: g₂) :
    EndingAccounted env.maxRetries g₁ id ending := by
  obtain ⟨y, hrun, -⟩ := contract_kept h
  rw [hz] at hrun
  exact ending_accounted hrun

/-- The only recipient of a batch gets its message in the first attempt. -/
theorem told_ending_accounted_delivered : ∃ (z : State × List Event) (g₁ : List Event),
    z.2 = g₁ ++ [.did 1 (.ended .delivered)] ∧
      EndingAccounted Sample.env.maxRetries g₁ 1 .delivered := by
  obtain ⟨z, hrun, hz⟩ := Machine.Run.exists_of_exec_always (toldMachine Sample.env)
    (.initial 0, [])
    Sample.delivery (fun z => z.2.getLast? = some (.did 1 (.ended .delivered))) (by decide)
  obtain ⟨g₁, hg₁⟩ := List.getLast?_eq_some_iff.1 (of_decide_eq_true hz)
  exact ⟨z, g₁, hg₁, told_ending_accounted ⟨_, _, ⟨⟨0, rfl⟩, rfl⟩, hrun⟩ hg₁⟩

/-- **Nothing is done after the end**, where workers keep within their locks: no attempt begins, no
message is handed to the provider and no other end is recorded. -/
theorem told_ended_last {z : State × List Event}
    (h : (toldMachine env).Reach (fun z a => WithinLock z.1 a) z) :
    z.2.Pairwise fun b b' => ∀ id, b.Ends id → ¬ b'.Works id := by
  obtain ⟨y, hrun, -⟩ := contract_kept_in_time h
  exact ended_last hrun

/-- The message is delivered twice, and the second worker finds the notification ended. -/
theorem told_ended_last_redelivered : ∃ z : State × List Event,
    (.did 1 (.ended .delivered)) ∈ z.2 ∧ z.1.processed = [Sample.message, Sample.message] ∧
      z.2.Pairwise fun b b' => ∀ id, b.Ends id → ¬ b'.Works id := by
  obtain ⟨z, hrun, hz⟩ := Machine.Run.exists_of_execChecked (toldMachine Sample.env)
    (fun z a => WithinLock z.1 a) (fun z a => withinLock z.1 a) (.initial 0, [])
    (Sample.delivery ++ [.worker 0 (.disconnect false), .worker 1 (.get .high Sample.message),
      .worker 1 (.reserve (Sample.sec 6) (Sample.sec 6) (Sample.sec 6) ⟨4, 5⟩)])
    (fun z => (.did 1 (.ended .delivered)) ∈ z.2 &&
      z.1.processed = [Sample.message, Sample.message])
    (fun _ _ => of_withinLock) (by decide)
  rw [Bool.and_eq_true, decide_eq_true_eq, decide_eq_true_eq] at hz
  exact ⟨z, hz.1, hz.2, told_ended_last ⟨_, _, ⟨⟨0, rfl⟩, rfl⟩, hrun⟩⟩

end NotificationSystem
