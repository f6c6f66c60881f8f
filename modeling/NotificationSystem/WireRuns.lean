import NotificationSystem.Lib.History
import NotificationSystem.Traced
import NotificationSystem.Wire

/-!
# Every body is read back

The model's records stand for dictionaries that are written as JSON, read from it and written
again by the next retry. Here the dictionaries are kept beside the system, each computed by the
code's functions from the body that the worker has read, and they agree with the records in every
run. So a worker never meets a body that it cannot read, and never takes one for another
notification's. A payload that `json.dumps` raises on is never stored: the transaction that would
store it fails.

* `wireMachine` — the system beside the `payload` column of its events.
* `Faithful`, `faithful_reach` — each payload represents its record.
* `bodies_read_back` — the theorem.
* `run_wire` — the column takes every payload while the integers are short.
-/

namespace NotificationSystem

open Lib

/-- The `payload` column of each event. -/
abbrev Wire := Uuid → Option JsonDict

variable {env : Deployment} {s s' : State} {a : Action} {g : Wire} (limits : JsonLimits)
  (floatRepr : String → String)

section wire

variable (env : Deployment)

/-- What the worker has read from the body of a message. -/
def receivedDict (g : Wire) (m : Message) : Option (JsonDict × Uuid) :=
  match ((g m.event).bind (messageBody limits)).map (decodePayload limits floatRepr) with
  | some (.ok payload notificationId) => some (payload, notificationId)
  | _ => none

/-- The payload that a worker's transaction stores with its new event. -/
def workerPayload (g : Wire) (s : State) (w : Nat) : WorkerAction → Option JsonDict
  | .reserve t₁ t₂ _ ids =>
    match s.workers w with
    | .received d =>
      (receivedDict limits floatRepr g d.message).bind fun (source, notificationId) =>
        (s.store.notifications.get notificationId).map fun n =>
          if n.hasActiveProcessingLock t₁ then
            addRetry n source (secondsUntil n.processingLockUntil t₂) none
              (some "processing_lock_active")
          else addFailed n.droppedBeforeProvider none (some maxRetriesMessage) t₂ ids
    | _ => none
  | .apply t₁ _ ids =>
    match s.workers w with
    | .responded d n result =>
      (receivedDict limits floatRepr g d.message).bind fun (source, _) =>
        match retryUntil env.toSettings n.attempts result t₁ with
        | .ok (some (delay, lockUntil)) =>
          some (addRetry (n.awaitingRetry result lockUntil) source delay result.errorMessage none)
        | .ok none =>
          some (addFailed (n.droppedByResult result) (some source) result.errorMessage t₁ ids)
        | .error _ => none
    | _ => none
  | _ => none

/-- The payload of a created event: the call of `notification_payload` in `create_bulk`, whose
arguments the record holds. -/
def createdPayload (p : Payload) : JsonDict :=
  payloadDict p.eventId p.notificationId p.batchId p.subscriberId p.channel p.type p.attempt
    p.createdAt p.routingKey none none

/-- The payload column after a step: a new event gets a payload, and no payload changes. -/
def noteWire (g : Wire) (s : State) (a : Action) (s' : State) : Wire := fun e =>
  match s.store.outbox.get e, s'.store.outbox.get e with
  | none, some row =>
    match a with
    | .request _ _ => some (createdPayload row.payload)
    | .worker w b => workerPayload limits floatRepr env g s w b
    | _ => none
  | _, _ => g e

/-- The payloads that the step stores are written to the column. -/
def storesPayloads (x y : State × Wire) : Bool :=
  y.1.store.outbox.rows.all fun e =>
    (x.1.store.outbox.get e.id).isSome ||
      (y.2 e.id).all fun payload => (columnText limits payload).isSome

/-- The system beside the payload column. -/
def wireMachine : Machine (State × Wire) Action :=
  ((machine env).withHistory (fun _ => none) (noteWire limits floatRepr env)).guard
    fun x _ y => storesPayloads limits x y

end wire

/-- `uuid.uuid4` draws 128 bits. -/
def DrawsUuids (_ : State × Wire) : Action → Prop
  | .request _ (.commit ids _) => ∀ i, ids i < 2 ^ 128
  | .worker _ (.reserve _ _ _ ids) | .worker _ (.apply _ _ ids) =>
    ids.eventId < 2 ^ 128 ∧ ids.rowId < 2 ^ 128
  | _ => True

/-- Every event has a payload that is written to the column and represents its record. -/
def Faithful (s : State) (g : Wire) : Prop :=
  ∀ e ∈ s.store.outbox, e.payload.notificationId < 2 ^ 128 ∧
    ∃ d, g e.id = some d ∧ Represents d e.payload ∧ (columnText limits d).isSome

/-- What a worker has read is what was sent. -/
theorem receivedDict_eq (hf : Faithful limits s g) {m : Message} (hm : s.store.Announced m) :
    m.payload.notificationId < 2 ^ 128 ∧
      ∃ d, g m.event = some d ∧ Represents d m.payload ∧ (columnText limits d).isSome ∧
        receivedDict limits floatRepr g m = some (d, m.payload.notificationId) := by
  obtain ⟨e, he, hid, -, hpayload, -⟩ := hm
  obtain ⟨hlt, d, hg, hd, hstored⟩ := hf e he
  rw [hpayload] at hlt hd
  rw [hid] at hg
  obtain ⟨body, hbody, hdecode⟩ := decode_messageBody floatRepr hd hstored hlt
  refine ⟨hlt, d, hg, hd, hstored, ?_⟩
  rw [receivedDict, hg, Option.bind_some, hbody, Option.map_some, hdecode]

/-- A payload of a new event that represents its record. -/
def Stored (o : Option JsonDict) (p : Payload) : Prop :=
  p.notificationId < 2 ^ 128 ∧ ∃ d, o = some d ∧ Represents d p

section stored

variable {w : Nat} {d : Delivery} {t₁ t₂ t₃ : Time} {ids : EventIds} {e : OutboxEvent}
  {n : Notification} {result : ProviderResult}

theorem stored_reserve (hf : Faithful limits s g) (hd : s.store.Announced d.message)
    (hw : s.workers w = .received d)
    (h : ReserveAdds env.toSettings s.store d.message.payload.notificationId d.message.payload
      t₁ t₂ t₃ ids e) :
    Stored (workerPayload limits floatRepr env g s w (.reserve t₁ t₂ t₃ ids)) e.payload := by
  obtain ⟨hlt, source, -, hsource, -, hreceived⟩ := receivedDict_eq limits floatRepr hf hd
  cases h with
  | @deferred n hget _ hlock _ =>
    refine ⟨hlt, _, ?_, represents_addRetry hsource n _ none (some "processing_lock_active")⟩
    simp only [workerPayload, hw, hreceived, Option.bind_some, hget, Option.map_some, hlock,
      if_true]
  | @refused n hget _ hlock _ =>
    have hrep : Represents (addFailed n.droppedBeforeProvider none (some maxRetriesMessage) t₂ ids)
        (failedEvent n.droppedBeforeProvider none (some maxRetriesMessage) t₂ t₃ ids).payload :=
      represents_addFailed rfl _ _ _ _
    refine ⟨(Table.get_key hget).trans_lt hlt, _, ?_, hrep⟩
    simp [workerPayload, hw, hreceived, hget, hlock]

theorem stored_apply (hf : Faithful limits s g) (hd : s.store.Announced d.message)
    (hw : s.workers w = .responded d n result) (hid : n.id = d.message.payload.notificationId)
    (h : ApplyAdds env.toSettings d.message.payload n result t₁ t₂ ids e) :
    Stored (workerPayload limits floatRepr env g s w (.apply t₁ t₂ ids)) e.payload := by
  obtain ⟨hlt, source, -, hsource, -, hreceived⟩ := receivedDict_eq limits floatRepr hf hd
  cases h with
  | @retried delay lockUntil _ _ hretry =>
    refine ⟨hlt, _, ?_, represents_addRetry hsource _ delay result.errorMessage none⟩
    simp only [workerPayload, hw, hreceived, Option.bind_some, hretry]
  | dropped _ _ hretry =>
    refine ⟨hid.trans_lt hlt, _, ?_, represents_addFailed (routingKeyOf_some hsource _) _ _ _ _⟩
    simp only [workerPayload, hw, hreceived, Option.bind_some, hretry]

end stored

theorem represents_createdPayload (request : BulkNotificationRequest) (ids : Nat → Uuid)
    (stamps : Nat → Time) (i : Nat) (r : Int) :
    Represents (createdPayload (createdEvent request ids stamps i r).payload)
      (createdEvent request ids stamps i r).payload := by
  intro k
  simp only [createdPayload, Payload.toDict, createdEvent, notificationPayload, Option.map_none,
    Dict.setIf]

theorem stored_of_new {e : OutboxEvent} (hr : Referenced s) (ht : Traced s)
    (hf : Faithful limits s g)
    (hok : DrawsUuids (s, g) a) (h : step env s a = some s') (he : e ∈ s'.store.outbox)
    (hnew : s.store.outbox.get e.id = none) :
    Stored (noteWire limits floatRepr env g s a s' e.id) e.payload := by
  have hrow : s'.store.outbox.get e.id = some e := Table.get_of_mem he
  have hnot {f : OutboxEvent} (hmem : f ∈ s.store.outbox) (hid : f.id = e.id) : False :=
    Table.get_eq_none.1 hnew f hmem hid
  have hknown {w : Nat} {d : Delivery} (hd : (s.workers w).delivery? = some d) :
      s.store.Announced d.message := ht.known _ (known_of_delivery hd)
  cases change_of_step h with
  | quiet _ _ _ ho => exact (hnot (ho ▸ he) rfl).elim
  | call => exact (hnot he rfl).elim
  | claim _ _ _ _ heq =>
    subst heq
    obtain ⟨f, hmem, rfl⟩ := mem_claimRows.1 he
    refine (hnot hmem ?_).elim
    split <;> rfl
  | recordPublished | recordRaised =>
    obtain ⟨f, hmem, rfl⟩ := mem_saveOutboxEvent.1 he
    refine (hnot hmem ?_).elim
    split <;> rfl
  | @reserve w d t₁ t₂ t₃ ids st out hw _ _ _ _ hres =>
    rw [afterReserve_store] at he
    have hadds := (reserved_adds hres he).resolve_left fun hmem => hnot hmem rfl
    have hstored := stored_reserve limits floatRepr hf
      (hknown (congrArg Worker.delivery? hw)) hw hadds
    simpa only [noteWire, hnew, hrow] using hstored
  | @apply w d n result t₁ t₂ ids st hw _ _ _ happ =>
    rw [afterApply_store] at he
    have hadds := (applied_adds happ he).resolve_left fun hmem => hnot hmem rfl
    have hid := (hr.flights w _ (congrArg Worker.flight? hw)).1
    have hstored := stored_apply limits floatRepr hf
      (hknown (congrArg Worker.delivery? hw)) hw hid hadds
    simpa only [noteWire, hnew, hrow] using hstored
  | commit hq hphase _ hcommit =>
    rcases commitBulk_event hcommit he with hmem | ⟨i, r, -, rfl⟩
    · exact (hnot hmem rfl).elim
    · refine ⟨hok _, createdPayload (createdEvent _ _ _ i r).payload, ?_,
        represents_createdPayload _ _ _ i r⟩
      simp only [noteWire, hnew, hrow]

theorem faithful_step (hr : Referenced s) (ht : Traced s) (hf : Faithful limits s g)
    (hok : DrawsUuids (s, g) a) (h : step env s a = some s')
    (hstores : storesPayloads limits (s, g) (s', noteWire limits floatRepr env g s a s')) :
    Faithful limits s' (noteWire limits floatRepr env g s a s') := by
  intro e he
  cases hold : s.store.outbox.get e.id with
  | none =>
    obtain ⟨hlt, d, hg, hd⟩ := stored_of_new limits floatRepr hr ht hf hok h he hold
    have hwritten := List.all_eq_true.1 hstores e he
    simp only [hold, hg, Option.isSome_none, Bool.false_or, Option.all_some] at hwritten
    exact ⟨hlt, d, hg, hd, hwritten⟩
  | some f =>
    -- the payload of an event is never changed
    obtain ⟨hmem, hid⟩ := Table.get_eq_some.1 hold
    obtain ⟨f', hmem', hsame, -⟩ := (change_of_step h).extends.outbox hmem
    obtain rfl := Table.eq_of_key hmem' he ((asWritten_id hsame).trans hid)
    obtain ⟨hlt, d, hg, hd⟩ := hf f hmem
    rw [asWritten_payload hsame]
    refine ⟨hlt, d, ?_, hd⟩
    simp only [noteWire, hold]
    exact hid ▸ hg

theorem reach_of_wire {x : State × Wire}
    (h : (wireMachine limits floatRepr env).Reach DrawsUuids x) :
    (machine env).Reach Machine.Always x.1 :=
  h.unguard.forget fun _ _ _ => trivial

theorem faithful_reach {x : State × Wire}
    (h : (wireMachine limits floatRepr env).Reach DrawsUuids x) : Faithful limits x.1 x.2 := by
  refine Machine.Reach.induct (I := fun x => Faithful limits x.1 x.2) ?_ ?_ h
  · rintro ⟨s, g⟩ ⟨⟨now, hinit⟩, -⟩ e he
    obtain rfl : s = State.initial now := hinit
    exact absurd he Table.not_mem_empty
  · intro y a z hy hf hok hstep
    have hreach := reach_of_wire limits floatRepr hy
    obtain ⟨hstep, hstores⟩ := Machine.step_guard.1 hstep
    obtain ⟨hs, hg⟩ := Machine.step_withHistory.1 hstep
    have hz : z = (z.1, noteWire limits floatRepr env y.2 y.1 a z.1) := Prod.ext rfl hg
    rw [hz] at hstores
    rw [hg]
    exact faithful_step limits floatRepr (referenced_reach hreach) (traced_reach hreach) hf hok hs
      hstores

/-- No transaction fails for its payload while the integers are short: every run of the system is
one beside the payload column. -/
theorem run_wire {now : Time} {as : List Action} (hlevels : 0 < limits.nesting)
    (h : (machine env).Run (fun s => DrawsUuids (s, fun _ => none)) (.initial now) as s)
    (hshort : ∀ e ∈ s.store.outbox, e.payload.short limits.digits = true) :
    ∃ g, (wireMachine limits floatRepr env).Run DrawsUuids (.initial now, fun _ => none) as
      (s, g) := by
  induction h with
  | nil => exact ⟨_, .nil⟩
  | @snoc as s s' a hrun hok hstep ih =>
    have hbefore : ∀ e ∈ s.store.outbox, e.payload.short limits.digits = true := fun e he => by
      obtain ⟨e', he', hsame, -⟩ := (change_of_step hstep).extends.outbox he
      exact asWritten_payload hsame ▸ hshort e' he'
    obtain ⟨g, hwire⟩ := ih hbefore
    have hreach : (wireMachine limits floatRepr env).Reach DrawsUuids (s, g) :=
      .run (.init ⟨⟨now, rfl⟩, rfl⟩) hwire
    have hplain := reach_of_wire limits floatRepr hreach
    have hf : Faithful limits s g := faithful_reach limits floatRepr hreach
    refine ⟨noteWire limits floatRepr env g s a s', .snoc hwire hok
      (Machine.step_guard.2 ⟨Machine.step_withHistory.2 ⟨hstep, rfl⟩, ?_⟩)⟩
    refine List.all_eq_true.2 fun e he => ?_
    cases hnew : s.store.outbox.get e.id with
    | some _ => rfl
    | none =>
      obtain ⟨-, d, hg, hd⟩ := stored_of_new limits floatRepr (referenced_reach hplain)
        (traced_reach hplain) hf hok hstep he hnew
      simpa [hg] using columnText_of_short hd hlevels (hshort e he)

/-- In every run, each message carries a body that the worker can read: it gets the payload that
the code has stored, which says what the model's record says, and the id of the event's own
notification. The payload column gives that payload back as well, and the publisher routes it as
it routes the record. -/
theorem bodies_read_back {x : State × Wire} {m : Message}
    (h : (wireMachine limits floatRepr env).Reach DrawsUuids x) (hm : x.1.Known m) :
    ∃ payload body, x.2 m.event = some payload ∧ Represents payload m.payload ∧
      (columnText limits payload).map (loads limits floatRepr) = some (.ok (.obj payload.rows)) ∧
      messageBody limits payload = some body ∧
      decodePayload limits floatRepr body = .ok payload m.payload.notificationId ∧
      publishDict limits m.eventType payload =
        (publishOutboxEvent m.eventType m.payload).map fun q => (q, body) := by
  have hannounced := (traced_reach (reach_of_wire limits floatRepr h)).known m hm
  obtain ⟨hlt, d, hg, hd, hstored, -⟩ :=
    receivedDict_eq limits floatRepr (faithful_reach limits floatRepr h) hannounced
  obtain ⟨body, hbody, hdecode⟩ := decode_messageBody floatRepr hd hstored hlt
  exact ⟨d, body, hg, hd, column_read_back floatRepr hd hstored, hbody, hdecode,
    publishDict_eq hd hbody m.eventType⟩

/-- A first attempt fails, and the message of its retry is published. -/
def Sample.retriedMessage : List Action :=
  [.request 0 (.submit request "key"), .request 0 (.read 0 0),
    .request 0 (.commit (fun i => i % 16) fun _ => 0)] ++ publication ++
    [.worker 0 (.get .high message), .worker 0 (.reserve 0 0 0 ⟨4, 5⟩), .worker 0 .send,
      .worker 0 (.answer temporaryError), .worker 0 (.apply 0 0 ⟨6, 7⟩), .publisher 0 .done,
      .publisher 0 (.claim (sec 60) (sec 60) (sec 60) []), .publisher 0 .load,
      .publisher 0 .publish]

theorem bodies_read_back_retry :
    ∃ (x : State × Wire) (m : Message) (payload : JsonDict) (body : ByteArray),
      m.eventType = .retryScheduled ∧ m ∈ x.1.broker.queues .high ∧ x.2 m.event = some payload ∧
        messageBody ⟨4300, 100⟩ payload = some body ∧
        decodePayload ⟨4300, 100⟩ id body = .ok payload m.payload.notificationId := by
  obtain ⟨s, hrun, hs⟩ := Machine.Run.exists_of_exec (machine Sample.env)
    (fun s => DrawsUuids (s, fun _ => none)) (.initial 0) Sample.retriedMessage
    (fun s => (s.broker.queues .high).any (fun m => m.eventType = .retryScheduled) &&
      s.store.outbox.rows.all fun e => e.payload.short 4300)
    (by
      simp only [Sample.retriedMessage, Sample.publication, List.mem_append, List.mem_cons,
        List.not_mem_nil, or_false]
      rintro _ _ (((rfl | rfl | rfl) | rfl | rfl | rfl | rfl) | rfl | rfl | rfl | rfl | rfl | rfl |
        rfl | rfl | rfl)
      all_goals first
        | trivial
        | exact fun i => (Nat.mod_lt i (by decide)).trans (by decide))
    (by decide)
  obtain ⟨hqueue, hshort⟩ := Bool.and_eq_true_iff.1 hs
  obtain ⟨m, hm, htype⟩ := List.any_eq_true.1 hqueue
  obtain ⟨g, hwire⟩ := run_wire ⟨4300, 100⟩ id (by decide) hrun (List.all_eq_true.1 hshort)
  have hreach : (wireMachine ⟨4300, 100⟩ id Sample.env).Reach DrawsUuids (s, g) :=
    .run (.init ⟨⟨0, rfl⟩, rfl⟩) hwire
  obtain ⟨payload, body, hpayload, -, -, hbody, hdecode, -⟩ :=
    bodies_read_back ⟨4300, 100⟩ id hreach (.inl ⟨.high, hm⟩)
  exact ⟨(s, g), m, payload, body, of_decide_eq_true htype, hm, hpayload, hbody, hdecode⟩

end NotificationSystem
