import NotificationSystem.NoLoss
import NotificationSystem.ProviderCalls

/-!
# A reserve that defers, query by query

The system takes a transaction as one step. That is exact for all but one: a `reserve` that finds
the processing lock active runs a second query, `_ensure_deferred_redelivery`'s for retry events.
Under `READ COMMITTED` this query sees what was committed before it ran, and the row lock that the
transaction holds since its first query keeps nobody from the outbox. So a publisher may claim and
record the covering event in between.

* `splitMachine` — the system where such a reserve is three steps: `test`, `query` and `add`.
* `exec_deferral`, `reach_split` — with nothing in between they are the `reserve` of the system, so
  every state that the system reaches is reached here too.
* `SplitLifecycle`, `splitLifecycle_of_step` — what a step does to one notification.
* `Coherent`, `coherent_reach` — what every state has in common with those of the system.
-/

namespace NotificationSystem

open Lib

variable {env : Deployment} {s s' : State} {x x' : SplitState} {id : Uuid}

/-- The lock on a notification's row that a reserve holds from its `SELECT … FOR UPDATE` to its
commit: the worker, the row as loaded, and whether the query for retry events has found none. -/
structure RowLock where
  worker : Nat
  row : Notification
  uncovered : Bool
  deriving DecidableEq, Repr

structure SplitState where
  system : State
  rowLocks : Uuid → Option RowLock

inductive SplitAction
  | whole (a : Action)
  | test (w : Nat) (t₁ : Time)
  | query (w : Nat) (t : Time)
  | add (w : Nat) (t₂ t₃ : Time) (ids : EventIds)

/-- The notification whose row the transaction locks. -/
def Action.locks (s : State) : Action → Option Uuid
  | .worker w (.reserve _ _ _ _) | .worker w (.apply _ _ _) =>
    (s.workers w).delivery?.map (·.message.payload.notificationId)
  | _ => none

namespace SplitState

/-- The row locks after a whole transaction. The database rolls back what a crashed worker has
begun. -/
def rowLocksAfter (x : SplitState) : Action → Uuid → Option RowLock
  | .worker w (.crash _), id => (x.rowLocks id).filter (·.worker ≠ w)
  | _, id => x.rowLocks id

/-- The delivery and the row lock of a worker whose reserve defers. -/
def deferring (x : SplitState) (w : Nat) : Option (Delivery × RowLock) :=
  match x.system.workers w with
  | .received d =>
    ((x.rowLocks d.message.payload.notificationId).filter (·.worker = w)).map fun k => (d, k)
  | _ => none

/-- The state after the reserve has returned or raised. -/
def endReserve (x : SplitState) (w : Nat) (d : Delivery) (t : Time)
    (result : Except Raised (Store × Option Notification)) : SplitState where
  system := afterReserve x.system w d t result
  rowLocks := Function.update x.rowLocks d.message.payload.notificationId none

end SplitState

def splitStep (env : Deployment) (x : SplitState) : SplitAction → Option SplitState
  | .whole a =>
    if (a.locks x.system).all fun id => (x.rowLocks id).isNone then
      (step env x.system a).map fun s => ⟨s, x.rowLocksAfter a⟩
    else none
  | .test w t₁ =>
    match x.system.workers w with
    | .received d =>
      match x.system.store.notifications.get d.message.payload.notificationId with
      | some n =>
        if x.system.now ≤ t₁ ∧ (x.rowLocks n.id).isNone ∧ n.isFinal = false ∧
            n.hasActiveProcessingLock t₁ = true then
          some ⟨{ x.system with now := t₁ },
            Function.update x.rowLocks n.id (some ⟨w, n, false⟩)⟩
        else none
      | none => none
    | _ => none
  | .query w t =>
    match x.deferring w with
    | some (d, ⟨_, n, false⟩) =>
      if x.system.now ≤ t then
        match scalarOneOrNone (deferredRedeliveries x.system.store n) with
        | .error e => some (x.endReserve w d t (.error e))
        | .ok (some _) => some (x.endReserve w d t (.ok (x.system.store, none)))
        | .ok none =>
          some ⟨{ x.system with now := t },
            Function.update x.rowLocks n.id (some ⟨w, n, true⟩)⟩
      else none
    | _ => none
  | .add w t₂ t₃ ids =>
    match x.deferring w with
    | some (d, ⟨_, n, true⟩) =>
      if x.system.now ≤ t₂ ∧ t₂ ≤ t₃ ∧ x.system.store.Fresh [ids.eventId, ids.rowId] then
        some (x.endReserve w d t₃
          ((addOutboxEvent x.system.store (deferredEvent n d.message.payload t₂ t₃ ids)).map
            (·, none)))
      else none
    | _ => none

/-- The system whose deferring reserves are three steps. -/
def splitMachine (env : Deployment) : Machine SplitState SplitAction where
  init x := (machine env).init x.system ∧ x.rowLocks = fun _ => none
  step := splitStep env

/-! ## The steps of a reserve and the whole of it -/

theorem deferring_eq_some {w : Nat} {d : Delivery} {k : RowLock} :
    x.deferring w = some (d, k) ↔ x.system.workers w = .received d ∧
      x.rowLocks d.message.payload.notificationId = some k ∧ k.worker = w := by
  unfold SplitState.deferring
  split
  · next d' hd =>
    rw [hd, Option.map_eq_some_iff]
    constructor
    · rintro ⟨k', hk, hpair⟩
      cases hpair
      obtain ⟨hk, hworker⟩ := Option.filter_eq_some_iff.1 hk
      exact ⟨rfl, hk, by simpa using hworker⟩
    · rintro ⟨hdd, hk, hworker⟩
      cases hdd
      exact ⟨k, Option.filter_eq_some_iff.2 ⟨hk, by simpa using hworker⟩, rfl⟩
  · next hnot => exact ⟨fun h => absurd h (by simp), fun h => absurd h.1 (hnot d)⟩

/-- **With nothing in between, the three steps are the reserve** that the system takes as one. -/
theorem exec_deferral {w : Nat} {d : Delivery} {n : Notification} {t₁ t₂ t₃ : Time}
    {ids : EventIds} (hw : s.workers w = .received d)
    (hget : s.store.notifications.get d.message.payload.notificationId = some n)
    (hopen : n.isFinal = false) (hlock : n.hasActiveProcessingLock t₁ = true)
    (hcov : deferredRedeliveries s.store n = []) (h₁ : s.now ≤ t₁) (h₂ : t₁ ≤ t₂) (h₃ : t₂ ≤ t₃)
    (hfresh : s.store.Fresh [ids.eventId, ids.rowId]) :
    (splitMachine env).exec ⟨s, fun _ => none⟩ [.test w t₁, .query w t₁, .add w t₂ t₃ ids] =
      (step env s (.worker w (.reserve t₁ t₂ t₃ ids))).map (⟨·, fun _ => none⟩) := by
  have hid := Table.get_key hget
  have hreserve : step env s (.worker w (.reserve t₁ t₂ t₃ ids)) =
      some (afterReserve s w d t₃
        ((addOutboxEvent s.store (deferredEvent n d.message.payload t₂ t₃ ids)).map
          (·, none))) := by
    simp only [step, workerStep, hw, h₁, h₂, h₃, hfresh, and_self, if_true, reserve, hget, hopen,
      hlock, ensureDeferredRedelivery, hcov, scalarOneOrNone, Bool.false_eq_true, if_false]
    cases addOutboxEvent s.store (deferredEvent n d.message.payload t₂ t₃ ids) <;> rfl
  have htest : splitStep env ⟨s, fun _ => none⟩ (.test w t₁) =
      some ⟨{ s with now := t₁ }, Function.update (fun _ => none) n.id (some ⟨w, n, false⟩)⟩ := by
    simp [splitStep, hw, hget, h₁, hopen, hlock]
  have deferring (b : Bool) (t : Time) (f : Uuid → Option RowLock) :
      SplitState.deferring ⟨{ s with now := t }, Function.update f n.id (some ⟨w, n, b⟩)⟩ w =
        some (d, ⟨w, n, b⟩) :=
    deferring_eq_some.2 ⟨hw, hid ▸ Function.update_self _ _ _, rfl⟩
  have rewound (r : Except Raised (Store × Option Notification)) :
      afterReserve { s with now := t₁ } w d t₃ r = afterReserve s w d t₃ r := by
    rcases r with _ | ⟨st, _ | m⟩ <;> rfl
  have hquery : splitStep env ⟨{ s with now := t₁ },
      Function.update (fun _ => none) n.id (some ⟨w, n, false⟩)⟩ (.query w t₁) =
        some ⟨{ s with now := t₁ }, Function.update (Function.update (fun _ => none) n.id
          (some ⟨w, n, false⟩)) n.id (some ⟨w, n, true⟩)⟩ := by
    simp only [splitStep, deferring, le_refl, if_true, hcov, scalarOneOrNone]
  have hadd : splitStep env ⟨{ s with now := t₁ }, Function.update (Function.update
      (fun _ => none) n.id (some ⟨w, n, false⟩)) n.id (some ⟨w, n, true⟩)⟩ (.add w t₂ t₃ ids) =
        some ⟨afterReserve s w d t₃ ((addOutboxEvent s.store
          (deferredEvent n d.message.payload t₂ t₃ ids)).map (·, none)), fun _ => none⟩ := by
    simp only [splitStep, deferring, h₂, h₃, hfresh, and_self, if_true, SplitState.endReserve,
      rewound, ← hid, Function.update_idem]
    rw [Function.update_eq_self_iff.2 rfl]
  simp only [Machine.exec, splitMachine, htest, hquery, hadd, hreserve, Option.bind_some,
    Option.map_some]

/-- **Every state that the system reaches is reached here.** -/
theorem reach_split (h : (machine env).Reach Machine.Always s) :
    (splitMachine env).Reach Machine.Always ⟨s, fun _ => none⟩ := by
  refine Machine.Reach.induct (I := fun s => (splitMachine env).Reach Machine.Always
    ⟨s, fun _ => none⟩) (fun s hs => .init ⟨hs, rfl⟩) (fun s a s' _ hs _ hstep => ?_) h
  refine hs.step (a := .whole a) trivial ?_
  have hlocks : (⟨s, fun _ => none⟩ : SplitState).rowLocksAfter a = fun _ => none := by
    funext id
    unfold SplitState.rowLocksAfter
    split <;> rfl
  show splitStep env ⟨s, fun _ => none⟩ (.whole a) = _
  simp only [splitStep, Option.isNone_none, Option.all_true, if_true]
  rw [show step env s a = some s' from hstep, Option.map_some, hlocks]

/-! ## What a step changes -/

/-- A step of the finer machine: a whole step of the system that needs no locked row, a step of
a deferring reserve that goes on, its end without a new event, or its end with one. -/
inductive SplitChange (env : Deployment) (x : SplitState) : SplitAction → SplitState → Prop
  | whole {a : Action} {s' : State} : (∀ id, a.locks x.system = some id → x.rowLocks id = none) →
      step env x.system a = some s' → SplitChange env x (.whole a) ⟨s', x.rowLocksAfter a⟩
  | test {w : Nat} {t₁ : Time} {d : Delivery} {n : Notification} :
      x.system.workers w = .received d →
      x.system.store.notifications.get d.message.payload.notificationId = some n →
      x.system.now ≤ t₁ → x.rowLocks n.id = none → n.isFinal = false →
      n.hasActiveProcessingLock t₁ = true →
      SplitChange env x (.test w t₁) ⟨{ x.system with now := t₁ },
        Function.update x.rowLocks n.id (some ⟨w, n, false⟩)⟩
  | query {w : Nat} {t : Time} {d : Delivery} {n : Notification} :
      x.deferring w = some (d, ⟨w, n, false⟩) → x.system.now ≤ t →
      deferredRedeliveries x.system.store n = [] →
      SplitChange env x (.query w t) ⟨{ x.system with now := t },
        Function.update x.rowLocks n.id (some ⟨w, n, true⟩)⟩
  | finish {a : SplitAction} {w : Nat} {t : Time} {d : Delivery} {k : RowLock}
      {result : Except Raised (Store × Option Notification)} :
      (∀ b, a ≠ .whole b) → x.deferring w = some (d, k) → x.system.now ≤ t →
      (∀ st out, result = .ok (st, out) → st = x.system.store ∧ out = none) →
      SplitChange env x a (x.endReserve w d t result)
  | add {w : Nat} {t₂ t₃ : Time} {ids : EventIds} {d : Delivery} {n : Notification}
      {outbox : Table OutboxEvent.id} :
      x.deferring w = some (d, ⟨w, n, true⟩) → x.system.now ≤ t₂ → t₂ ≤ t₃ →
      x.system.store.outbox.insert? (deferredEvent n d.message.payload t₂ t₃ ids) = some outbox →
      SplitChange env x (.add w t₂ t₃ ids)
        (x.endReserve w d t₃ (.ok ({ x.system.store with outbox }, none)))

theorem splitChange_of_step {a : SplitAction} (h : splitStep env x a = some x') :
    SplitChange env x a x' := by
  cases a with
  | whole a =>
    simp only [splitStep] at h
    split at h
    · next hfree =>
      obtain ⟨s', hstep, rfl⟩ := Option.map_eq_some_iff.1 h
      exact .whole (fun id hid => by simpa [hid] using hfree) hstep
    · cases h
  | test w t₁ =>
    simp only [splitStep] at h
    split at h
    · next d hw =>
      split at h
      · next n hget =>
        split at h
        · next hguard =>
          cases h
          exact .test hw hget hguard.1 (by simpa using hguard.2.1) hguard.2.2.1 hguard.2.2.2
        · cases h
      · cases h
    · cases h
  | query w t =>
    simp only [splitStep] at h
    split at h
    · next d v n hk =>
      obtain rfl : v = w := (deferring_eq_some.1 hk).2.2
      split at h
      · next hnow =>
        split at h
        · cases h
          exact .finish (fun _ h => by cases h) hk hnow fun _ _ h => by cases h
        · cases h
          exact .finish (fun _ h => by cases h) hk hnow fun _ _ h => by cases h; exact ⟨rfl, rfl⟩
        · next hnone =>
          cases h
          exact .query hk hnow (scalarOneOrNone_ok hnone)
      · cases h
    · cases h
  | add w t₂ t₃ ids =>
    simp only [splitStep] at h
    split at h
    · next d v n hk =>
      obtain rfl : v = w := (deferring_eq_some.1 hk).2.2
      split at h
      · next hguard =>
        obtain ⟨h₂, h₃, -⟩ := hguard
        cases h
        cases hadd :
            addOutboxEvent x.system.store (deferredEvent n d.message.payload t₂ t₃ ids) with
        | error e =>
          exact .finish (fun _ h => by cases h) hk (h₂.trans h₃) fun _ _ h => by cases h
        | ok st =>
          obtain ⟨outbox, hins, rfl⟩ := addOutboxEvent_ok hadd
          exact .add hk h₂ h₃ hins
      · cases h
    · cases h

/-! ## The end of a deferring reserve -/

section ended

variable {w : Nat} {d : Delivery} {t : Time} {st : Store} {m : Message}

/-- What a reserve without an attempt leaves, when the store is `st` then. -/
structure Ended (s : State) (w : Nat) (d : Delivery) (t : Time) (st : Store) (s' : State) :
    Prop where
  now : s'.now = t
  store : s'.store = st
  broker : s'.broker = s.broker
  publishers : s'.publishers = s.publishers
  publishes : s'.publishes = s.publishes
  calls : s'.calls = s.calls
  delivery : (s'.workers w).delivery? = some d
  flight : (s'.workers w).flight? = none
  workers : ∀ v, v ≠ w → s'.workers v = s.workers v
  processed : ∀ m ∈ s'.processed, m ∈ s.processed ∨ m = d.message

theorem ended_added : Ended s w d t st (afterReserve s w d t (.ok (st, none))) :=
  ⟨rfl, rfl, rfl, rfl, rfl, rfl, by simp [afterReserve, Worker.delivery?],
    by simp [afterReserve, Worker.flight?], fun v hv => setWorker_ne hv,
    fun m hm => (List.mem_append.1 hm).imp_right List.mem_singleton.1⟩

theorem ended_afterReserve {result : Except Raised (Store × Option Notification)}
    (hresult : ∀ st out, result = .ok (st, out) → st = s.store ∧ out = none) :
    Ended s w d t s.store (afterReserve s w d t result) := by
  match result with
  | .error _ =>
    exact ⟨rfl, rfl, rfl, rfl, rfl, rfl, by simp [afterReserve, Worker.delivery?],
      by simp [afterReserve, Worker.flight?], fun v hv => setWorker_ne hv, fun m hm => .inl hm⟩
  | .ok (st, out) =>
    obtain ⟨rfl, rfl⟩ := hresult st out rfl
    exact ended_added

theorem Ended.known (h : Ended s w d t st s') (hw : s.workers w = .received d)
    (hm : s'.Known m) : s.Known m := by
  have hd : s.Known d.message := known_of_delivery (by rw [hw]; rfl)
  rcases hm with hm | ⟨v, d', hd', rfl⟩ | hm
  · exact .inl (h.broker ▸ hm)
  · by_cases hv : v = w
    · subst hv
      cases h.delivery.symm.trans hd'
      exact hd
    · exact known_of_delivery (h.workers v hv ▸ hd')
  · rcases h.processed m hm with hm | rfl
    · exact known_processed hm
    · exact hd

theorem Ended.flights (h : Ended s w d t st s') (hw : s.workers w = .received d) (v : Nat) :
    (s'.workers v).flight? = (s.workers v).flight? := by
  by_cases hv : v = w
  · subst hv
    rw [h.flight, hw]
    rfl
  · rw [h.workers v hv]

/-- The lifecycle of a notification then: at most its events have changed. -/
theorem Ended.lifecycle (h : Ended s w d t st s') (hw : s.workers w = .received d)
    (hn : st.notifications = s.store.notifications) (hh : st.history = s.store.history) :
    s'.lifecycle id = { s.lifecycle id with now := t, events := st.eventsOf id } := by
  refine Lifecycle.ext h.now ?_ ?_ ?_ ?_ (funext fun v => ?_)
  · simp only [State.lifecycle, h.store, hn]
  · simp only [State.lifecycle, Store.historyOf, h.store, hh]
  · simp only [State.lifecycle, h.store]
  · simp only [State.lifecycle, State.callsOf, h.calls]
  · simp only [State.lifecycle, Worker.flightOf, h.flights hw]

end ended

/-! ## What holds in every state -/

/-- What the states have in common with those of the system. -/
structure Coherent (env : Deployment) (s : State) : Prop where
  referenced : Referenced s
  traced : Traced s
  sound : ∀ id, (s.lifecycle id).Sound
  counted : ∀ id, (s.lifecycle id).Counted env.toSettings

theorem coherent_initial (now : Time) : Coherent env (State.initial now) where
  referenced := referenced_initial now
  traced := traced_initial now
  sound _ := sound_initial now
  counted _ := counted_initial now

theorem coherent_step {a : Action} (hs : Coherent env s) (h : step env s a = some s') :
    Coherent env s' := by
  have hchange := change_of_step h
  have hlife (id : Uuid) : (s.lifecycle id).Step env.toSettings a (s'.lifecycle id) :=
    change_lifecycle hs.referenced hchange
  exact ⟨referenced_step hs.referenced hchange, traced_step hs.referenced hs.traced h,
    fun id => sound_step (hs.sound id) (hlife id),
    fun id => counted_step (hs.counted id) (hlife id)⟩

theorem coherent_later {t : Time} (hs : Coherent env s) (ht : s.now ≤ t) :
    Coherent env { s with now := t } :=
  coherent_step (a := .tick t) hs (if_pos ht)

theorem coherent_ended {w : Nat} {d : Delivery} {t : Time} {st : Store} (hs : Coherent env s)
    (hw : s.workers w = .received d) (hnow : s.now ≤ t) (h : Ended s w d t st s')
    (hn : st.notifications = s.store.notifications) (hh : st.history = s.store.history)
    (hkept : ∀ e ∈ s.store.outbox, e ∈ st.outbox)
    (hnew : ∀ e ∈ st.outbox, e ∈ s.store.outbox ∨ e.New ∧ s.store.Has e.aggregateId) :
    Coherent env s' := by
  have hlife (id : Uuid) :
      s'.lifecycle id = { s.lifecycle id with now := t, events := st.eventsOf id } :=
    h.lifecycle hw hn hh
  have hext : s.store.Extends s'.store := by
    rw [h.store]
    exact ⟨fun hget => ⟨_, hn ▸ hget, le_rfl⟩, fun he => ⟨_, hkept _ he, rfl, le_rfl⟩⟩
  refine ⟨⟨fun row hrow => ?_, fun e he => ?_, fun c hc => ?_, fun v f hf => ?_⟩,
    ⟨fun e he => ?_, fun e he hpos u hu => ?_, fun e he hzero => ?_, fun p c hc => ?_,
      fun p row hrow => ?_, fun p e row todo hload => ?_, fun m hm => ?_, fun c hc => ?_⟩,
    fun id => ?_, fun id => ?_⟩
  · rw [h.store, hh] at hrow
    exact hext.has (hs.referenced.history row hrow)
  · rw [h.store] at he
    exact hext.has ((hnew e he).elim (hs.referenced.outbox e) And.right)
  · exact hext.has (hs.referenced.calls c (h.calls ▸ hc))
  · obtain ⟨hid, hhas⟩ := hs.referenced.flights v f (h.flights hw v ▸ hf)
    exact ⟨hid, hext.has hhas⟩
  · exact (hnew e (h.store ▸ he)).elim (hs.traced.aggregate e) fun hnew => hnew.1.aggregate
  · rcases hnew e (h.store ▸ he) with hold | ⟨hnew, -⟩
    · exact (hs.traced.due e hold hpos u hu).trans (hnow.trans h.now.ge)
    · exact absurd hnew.attempts hpos.ne'
  · exact (hnew e (h.store ▸ he)).elim (hs.traced.unclaimed e · hzero) fun hnew => hnew.1.pending
  · exact hext.announced (hs.traced.claims p c (h.publishers ▸ hc))
  · exact hext.loaded (hs.traced.rows p row (h.publishers ▸ hrow))
  · exact hs.traced.loaded p e row todo (h.publishers ▸ hload)
  · exact hext.announced (hs.traced.known m (h.known hw hm))
  · obtain ⟨m, hm, hann⟩ := hs.traced.publishes c (h.publishes ▸ hc)
    exact ⟨m, hm, hext.announced hann⟩
  · rw [hlife]
    exact ⟨(hs.sound id).flights, (hs.sound id).queued, (hs.sound id).sent⟩
  · have hc := hs.counted id
    rw [hlife]
    exact ⟨hc.sent, hc.bound, hc.flights, hc.distinct, hc.calls, hc.nodup, hc.uncalled⟩

/-- A row that a reserve has locked is stored as the worker has loaded it. -/
def RowsHeld (x : SplitState) : Prop :=
  ∀ id k, x.rowLocks id = some k → x.system.store.notifications.get id = some k.row ∧
    k.row.isFinal = false ∧ k.row.status = .sent

/-- What a whole step of the system does to a notification whose row it does not lock. -/
theorem unlocked_quiet {a : Action} (hr : Referenced s) (hhas : s.store.Has id)
    (hfree : a.locks s ≠ some id) (h : step env s a = some s') :
    (s'.lifecycle id).row = (s.lifecycle id).row ∧
      (s'.lifecycle id).events.map (·.asWritten) = (s.lifecycle id).events.map (·.asWritten) := by
  have quiet (hstep : Lifecycle.Step env.toSettings (s.lifecycle id) (.tick 0) (s'.lifecycle id)) :
      (s'.lifecycle id).row = (s.lifecycle id).row ∧
        (s'.lifecycle id).events.map (·.asWritten) = (s.lifecycle id).events.map (·.asWritten) := by
    cases hstep with
    | quiet _ hrow _ he => exact ⟨hrow, he⟩
  cases change_of_step h with
  | quiet hnow hn hh ho hc hf =>
    refine quiet (step_quiet hnow (by rw [hn]) (by rw [Store.historyOf, hh]; rfl)
      (by rw [Store.eventsOf, ho]; rfl) (by rw [State.callsOf, hc]; rfl) (flightOf_continues hf))
  | call => exact ⟨rfl, rfl⟩
  | reserve hw h₁ h₂ h₃ _ hres =>
    refine quiet (reserve_elsewhere hw (h₁.trans (h₂.trans h₃)) (fun hid => hfree ?_) hres)
    simp [Action.locks, hw, Worker.delivery?, hid]
  | @apply w d n _ _ _ _ _ hw h₁ h₂ _ happ =>
    refine quiet (apply_elsewhere (h₁.trans h₂) (fun hid => hfree ?_) happ)
    have hn : n.id = d.message.payload.notificationId :=
      (hr.flights _ _ (congrArg Worker.flight? hw)).1
    simp [Action.locks, hw, Worker.delivery?, ← hn, hid]
  | claim _ _ _ _ heq =>
    subst heq
    refine ⟨rfl, eventsOf_map_asWritten (fun e => ?_)
      (Table.rows_modifyWhere (OutboxEvent.claimed_id _))⟩
    split <;> rfl
  | recordPublished | recordRaised =>
    refine ⟨rfl, eventsOf_map_asWritten (fun e => ?_)
      (Table.rows_modifyWhere (OutboxEvent.writeBack_id _ _))⟩
    split <;> rfl
  | commit _ _ hfresh hcom =>
    refine quiet (commit_elsewhere hcom fun hmem => ?_)
    obtain ⟨m, hm, rfl⟩ := List.mem_map.1 hmem
    obtain ⟨n, hn⟩ := hhas
    exact newNotification_fresh hfresh hm
      (Table.get_key hn ▸ mem_uuids_of_notification (Table.mem_of_get hn))

theorem rowLocksAfter_some {a : Action} {k : RowLock} (h : x.rowLocksAfter a id = some k) :
    x.rowLocks id = some k := by
  unfold SplitState.rowLocksAfter at h
  split at h
  · exact (Option.filter_eq_some_iff.1 h).1
  · exact h

theorem RowsHeld.row {w : Nat} {d : Delivery} {k : RowLock} (hx : RowsHeld x)
    (hk : x.deferring w = some (d, k)) :
    x.system.store.notifications.get k.row.id = some k.row ∧
      k.row.id = d.message.payload.notificationId := by
  obtain ⟨-, hlock, -⟩ := deferring_eq_some.1 hk
  obtain ⟨hget, -, -⟩ := hx _ _ hlock
  have hid := Table.get_key hget
  exact ⟨hid ▸ hget, hid⟩

theorem of_update_lock {f : Uuid → Option RowLock} {id' : Uuid} {o : Option RowLock} {k : RowLock}
    (h : Function.update f id' o id = some k) :
    (id = id' ∧ o = some k) ∨ (id ≠ id' ∧ f id = some k) := by
  rw [Function.update_apply] at h
  split at h
  · next hid => exact .inl ⟨hid, h⟩
  · next hid => exact .inr ⟨hid, h⟩

theorem rowsHeld_step {a : SplitAction} (hs : Coherent env x.system) (hx : RowsHeld x)
    (h : SplitChange env x a x') : RowsHeld x' := by
  intro id k hk
  cases h with
  | @whole a s' hfree hstep =>
    have hold := rowLocksAfter_some hk
    obtain ⟨hget, hrest⟩ := hx id k hold
    refine ⟨?_, hrest⟩
    have hrow := (unlocked_quiet hs.referenced ⟨_, hget⟩ (fun hid => ?_) hstep).1
    · exact hrow.trans hget
    · cases (hfree id hid).symm.trans hold
  | test hw hget _ _ hopen hlock =>
    rcases of_update_lock hk with ⟨rfl, heq⟩ | ⟨-, hk⟩
    · cases heq
      simp only [Notification.hasActiveProcessingLock, Bool.and_eq_true, decide_eq_true_eq] at hlock
      exact ⟨Table.get_key hget ▸ hget, hopen, hlock.1⟩
    · exact hx id k hk
  | query hd =>
    rcases of_update_lock hk with ⟨rfl, heq⟩ | ⟨-, hk⟩
    · cases heq
      exact ⟨(hx.row hd).1, (hx _ _ (deferring_eq_some.1 hd).2.1).2⟩
    · exact hx id k hk
  | @finish a w t d k' result _ _ _ hresult =>
    rcases of_update_lock hk with ⟨-, heq⟩ | ⟨-, hk⟩
    · cases heq
    · have hend := ended_afterReserve (w := w) (d := d) (t := t) hresult
      rw [SplitState.endReserve, hend.store]
      exact hx id k hk
  | add =>
    rcases of_update_lock hk with ⟨-, heq⟩ | ⟨-, hk⟩
    · cases heq
    · exact hx id k hk

theorem coherent_splitStep {a : SplitAction} (hs : Coherent env x.system) (hx : RowsHeld x)
    (h : SplitChange env x a x') : Coherent env x'.system := by
  cases h with
  | whole _ hstep => exact coherent_step hs hstep
  | test _ _ hnow => exact coherent_later hs hnow
  | query _ hnow => exact coherent_later hs hnow
  | finish _ hd hnow hresult =>
    obtain ⟨hw, -⟩ := deferring_eq_some.1 hd
    exact coherent_ended hs hw hnow (ended_afterReserve hresult) rfl rfl (fun _ he => he)
      fun _ he => .inl he
  | add hd h₂ h₃ hins =>
    obtain ⟨hw, -⟩ := deferring_eq_some.1 hd
    obtain ⟨hget, hid⟩ := hx.row hd
    refine coherent_ended hs hw (h₂.trans h₃) ended_added rfl rfl
      (fun e he => (Table.mem_insert? hins).2 (.inl he)) fun e he => ?_
    refine ((Table.mem_insert? hins).1 he).imp_right fun heq => ?_
    rw [heq]
    exact ⟨⟨rfl, rfl, hid.symm⟩, ⟨_, hget⟩⟩

/-- **Every reachable state is like one of the system**, and its locked rows are the stored
ones. -/
theorem coherent_reach {ok : SplitState → SplitAction → Prop} (h : (splitMachine env).Reach ok x) :
    Coherent env x.system ∧ RowsHeld x := by
  refine Machine.Reach.induct (I := fun x => Coherent env x.system ∧ RowsHeld x) ?_
    (fun y a z _ hy _ hstep => ?_) h
  · rintro ⟨_, _⟩ ⟨⟨now, rfl⟩, rfl⟩
    exact ⟨coherent_initial now, fun _ _ h => by cases h⟩
  · have hchange := splitChange_of_step hstep
    exact ⟨coherent_splitStep hy.1 hy.2 hchange, rowsHeld_step hy.1 hy.2 hchange⟩

/-! ## The life of one notification -/

/-- What a step does to one notification: a step of its lifecycle, nothing but that time passes,
or the event that a deferring reserve adds. -/
inductive SplitLifecycle (cfg : Settings) (x : SplitState) (id : Uuid) :
    SplitAction → Lifecycle → Prop
  | whole {a : Action} {l' : Lifecycle} : (x.system.lifecycle id).Step cfg a l' →
      SplitLifecycle cfg x id (.whole a) l'
  | wait {a : SplitAction} {t : Time} : x.system.now ≤ t →
      SplitLifecycle cfg x id a { x.system.lifecycle id with now := t }
  | add {w : Nat} {t₂ t₃ : Time} {ids : EventIds} {d : Delivery} {n : Notification} :
      x.deferring w = some (d, ⟨w, n, true⟩) → n.id = id → x.system.now ≤ t₃ →
      SplitLifecycle cfg x id (.add w t₂ t₃ ids)
        { x.system.lifecycle id with
          now := t₃
          events := (x.system.lifecycle id).events ++
            [deferredEvent n d.message.payload t₂ t₃ ids] }

theorem splitLifecycle_of_step {a : SplitAction} (hs : Coherent env x.system)
    (h : SplitChange env x a x') :
    SplitLifecycle env.toSettings x id a (x'.system.lifecycle id) := by
  cases h with
  | whole _ hstep => exact .whole (change_lifecycle hs.referenced (change_of_step hstep))
  | test _ _ hnow => exact .wait hnow
  | query _ hnow => exact .wait hnow
  | finish _ hd hnow hresult =>
    obtain ⟨hw, -⟩ := deferring_eq_some.1 hd
    rw [SplitState.endReserve, (ended_afterReserve hresult).lifecycle hw rfl rfl]
    exact .wait hnow
  | @add w t₂ t₃ ids d n outbox hd h₂ h₃ hins =>
    obtain ⟨hw, -⟩ := deferring_eq_some.1 hd
    have hend : Ended x.system w d t₃ { x.system.store with outbox }
        (afterReserve x.system w d t₃ (.ok ({ x.system.store with outbox }, none))) := ended_added
    rw [SplitState.endReserve, hend.lifecycle hw rfl rfl]
    by_cases hid : n.id = id
    · rw [show Store.eventsOf _ id = _ from filter_insert?_self hins hid]
      exact .add hd hid (h₂.trans h₃)
    · rw [show Store.eventsOf _ id = _ from filter_insert?_ne hins hid]
      exact .wait (h₂.trans h₃)

end NotificationSystem
