import NotificationSystem.Claims
import NotificationSystem.Lib.Batches

/-!
# Draining the outbox

A single publisher calls `publish_pending` until a call returns 0. No publish raises, the
publisher does not crash, and nobody else writes the outbox.

At any time the backlog falls into four lists: the events whose outcome is recorded, the one that
is published and not recorded yet, those that the batch has left, and those that are not claimed.
The first three, one after the other, are the least events of the backlog in the order of
`claim_pending`, so a claim takes the least of the rest. A claim finds no row of an earlier one:
the publisher claims only after it has recorded its whole batch, so the claim timeout plays no
part.

* `DrainsAlone`, `drainMachine` — the runs of a drain, with what the calls returned.
* `Draining`, `draining_run` — the four lists, in every state of a drain.
* `queued_run` — what the queues have got, while no worker takes a message.
* `drain_completes` — a drain can be brought to its end from any of its states.
* `drain_exactly_once` — what a drain has published when a call returns 0.
-/

namespace NotificationSystem

open Lib

variable {env : Deployment} {s₀ s s' : State} {a : Action} {p : Nat} {e f : OutboxEvent} {t : Time}

/-- The events that wait to be published. -/
def State.backlog (s : State) : List OutboxEvent :=
  s.store.outbox.rows.filter (·.status = .pending)

/-- Publisher `p` may begin a drain: it is idle, every event that waits is available, and none is
being published. -/
structure State.Ready (s : State) (p : Nat) : Prop where
  idle : s.publishers p = .idle
  available : ∀ e ∈ s.backlog, ∀ t, e.availableAt = some t → t ≤ s.now
  unclaimed : ∀ e ∈ s.store.outbox, e.status ≠ .processing

/-- Publisher `p` is the only one that publishes, its publish calls succeed, it does not crash,
and no other process writes the outbox. -/
def DrainsAlone (env : Deployment) (p : Nat) (s : State) : Action → Prop
  | .publisher q (.claim _ _ _ locked) => q = p ∧ locked = []
  | .publisher _ (.publishRaises _ _) | .publisher _ .crash => False
  | .publisher q _ => q = p
  | a => ∀ s', step env s a = some s' → s'.store.outbox = s.store.outbox

/-- What the calls of `publish_pending` return: the number of events they claim. -/
def noteReturn (returned : List Nat) (_ : State) : Action → State → List Nat
  | .publisher p (.claim _ _ _ _), s' => returned ++ [(s'.publishers p).claims.length]
  | _, _ => returned

/-- The system beside what the calls of `publish_pending` have returned. -/
def drainMachine (env : Deployment) : Machine (State × List Nat) Action :=
  (machine env).withHistory [] noteReturn

/-- A drain by publisher `p`. -/
abbrev DrainRun (env : Deployment) (p : Nat) (x : State × List Nat) (as : List Action)
    (y : State × List Nat) : Prop :=
  (drainMachine env).Run (fun x a => DrainsAlone env p x.1 a) x as y

/-! ## The order of a claim -/

/-- The sort keys of `claim_pending`. -/
def OutboxEvent.sortKey (e : OutboxEvent) : Nat ×ₗ Time := toLex (e.priority, e.createdAt)

theorem claimsBefore_iff : e.claimsBefore f ↔ e.sortKey ≤ f.sortKey := by
  unfold OutboxEvent.claimsBefore OutboxEvent.sortKey
  rw [Prod.Lex.toLex_le_toLex]

instance : Std.Total OutboxEvent.claimsBefore where
  total e f := by
    rw [claimsBefore_iff, claimsBefore_iff]
    exact le_total _ _

instance : IsTrans OutboxEvent OutboxEvent.claimsBefore where
  trans e f g hef hfg := by
    rw [claimsBefore_iff] at hef hfg ⊢
    exact hef.trans hfg

theorem high_of_claimsBefore (h : e.claimsBefore f)
    (hf : f.payload.routingKey = "notification.high") :
    e.payload.routingKey = "notification.high" := by
  by_contra he
  simp [OutboxEvent.claimsBefore, OutboxEvent.priority, he, hf] at h

theorem createdAt_of_claimsBefore (h : e.claimsBefore f) (hef : e.priority = f.priority) :
    e.createdAt ≤ f.createdAt := by
  rcases h with hlt | ⟨-, hle⟩
  · exact absurd hlt (by rw [hef]; exact lt_irrefl _)
  · exact hle

/-! ## Claimable rows -/

theorem mem_backlog : e ∈ s.backlog ↔ e ∈ s.store.outbox ∧ e.status = .pending := by
  rw [State.backlog, List.mem_filter, decide_eq_true_eq, Table.mem_def]

theorem claimable_of_pending {now claimDeadline : Time} (hs : e.status = .pending)
    (ha : ∀ t, e.availableAt = some t → t ≤ now) : e.claimable now claimDeadline = true := by
  unfold OutboxEvent.claimable
  cases he : e.availableAt with
  | none => simp [hs]
  | some t => simp [hs, ha t he]

theorem status_of_claimable {now claimDeadline : Time} (h : e.claimable now claimDeadline = true) :
    e.status = .pending ∨ e.status = .processing := by
  simp only [OutboxEvent.claimable, Bool.or_eq_true, Bool.and_eq_true, decide_eq_true_eq] at h
  exact h.imp And.left And.left

/-- What a claim returns for a row. -/
def OutboxEvent.toClaimed (e : OutboxEvent) : ClaimedOutboxEvent := ⟨e.id, e.eventType, e.payload⟩

section store

variable {st : Store} {events : List OutboxEvent} {loaded updated : OutboxEvent}

theorem claimRows_ids :
    (claimRows st events t).outbox.rows.map (·.id) = st.outbox.rows.map (·.id) :=
  Table.map_keys_modify _ _ _ (OutboxEvent.claimed_id t)

theorem claimRows_claims (he : e ∈ st.outbox) (hmem : e ∈ events) :
    e.claimed t ∈ (claimRows st events t).outbox :=
  mem_claimRows.2 ⟨e, he, by rw [if_pos (List.mem_map_of_mem hmem)]⟩

theorem saveOutboxEvent_ids :
    (st.saveOutboxEvent loaded updated).outbox.rows.map (·.id) = st.outbox.rows.map (·.id) :=
  Table.map_keys_modify _ _ _ (OutboxEvent.writeBack_id loaded updated)

theorem saveOutboxEvent_saves (updated : OutboxEvent) (he : loaded ∈ st.outbox) :
    OutboxEvent.writeBack loaded updated loaded ∈ (st.saveOutboxEvent loaded updated).outbox :=
  mem_saveOutboxEvent.2 ⟨loaded, he, by rw [if_pos rfl]⟩

/-- A publisher that loaded the stored row writes all that it left. -/
theorem writeBack_markPublished :
    OutboxEvent.writeBack loaded (loaded.markPublished t) loaded = loaded.markPublished t := by
  simp [OutboxEvent.writeBack, OutboxEvent.markPublished]

end store

/-! ## The state of a drain -/

/-- The publisher's batch: the event that it has published and not recorded, and those that it
has yet to publish. A row that it has loaded is the one its claim left. -/
inductive Publisher.Holds (outbox : Table OutboxEvent.id) :
    Publisher → List OutboxEvent → List OutboxEvent → Prop
  | idle : Holds outbox .idle [] []
  | working {todo : List OutboxEvent} :
      Holds outbox (.working (todo.map (·.toClaimed))) [] todo
  | loaded {e : OutboxEvent} {t : Time} {todo : List OutboxEvent} : e.claimed t ∈ outbox →
      Holds outbox (.loaded e.toClaimed (e.claimed t) (todo.map (·.toClaimed))) [] (e :: todo)
  | published {e : OutboxEvent} {t : Time} {todo : List OutboxEvent} : e.claimed t ∈ outbox →
      Holds outbox (.published (e.claimed t) (todo.map (·.toClaimed))) [e] todo

/-- The row of the event is published and unlocked. -/
def Store.Settled (st : Store) (e : OutboxEvent) : Prop :=
  ∃ row, st.outbox.get e.id = some row ∧ row.status = .published ∧ row.lockedAt = none

/-- Where a drain that began in `s₀` stands: what is recorded, what is published besides, what
the batch has left, and what is not claimed. -/
structure Draining (s₀ : State) (p : Nat) (s : State) (returned : List Nat)
    (recorded sent todo rest : List OutboxEvent) : Prop where
  now : s₀.now ≤ s.now
  emptied : Emptied OutboxEvent.claimsBefore s₀.backlog (recorded ++ sent ++ todo) rest
  batch : (s.publishers p).Holds s.store.outbox sent todo
  ids : s.store.outbox.rows.map (·.id) = s₀.store.outbox.rows.map (·.id)
  settled : ∀ e ∈ recorded, s.store.Settled e
  claimed : ∀ e ∈ sent ++ todo, ∃ t, e.claimed t ∈ s.store.outbox
  waiting : ∀ e ∈ rest, e ∈ s.store.outbox
  others : ∀ e ∈ s₀.store.outbox, e.status ≠ .pending → e ∈ s.store.outbox
  calls : ∃ calls, s.publishes = s₀.publishes ++ calls ∧
    calls.map (·.event) = (recorded ++ sent).map (·.id) ∧ ∀ c ∈ calls, c.raised = false
  total : returned.sum = (recorded ++ sent ++ todo).length
  ended : returned.getLast? = some 0 → sent ++ todo ++ rest = []

section draining

variable {returned : List Nat} {recorded sent todo rest : List OutboxEvent}

theorem draining_start (hs : s.Ready p) : Draining s p s [] [] [] [] s.backlog where
  now := le_rfl
  emptied := emptied_nil
  batch := by
    rw [hs.idle]
    exact .idle
  ids := rfl
  settled := by simp
  claimed := by simp
  waiting _ he := (mem_backlog.1 he).1
  others _ he _ := he
  calls := ⟨[], by simp⟩
  total := rfl
  ended := by simp

theorem nodup_of_emptied {out : List OutboxEvent}
    (h : Emptied OutboxEvent.claimsBefore s₀.backlog out rest) :
    ((out ++ rest).map (·.id)).Nodup :=
  (h.perm.map _).nodup_iff.2
    (s₀.store.outbox.nodup.sublist (List.filter_sublist.map OutboxEvent.id))

theorem id_ne_of_others (he : e ∈ s₀.backlog) (hf : f ∈ s₀.store.outbox)
    (hstatus : f.status ≠ .pending) : f.id ≠ e.id := by
  intro hid
  obtain ⟨hmem, hpending⟩ := mem_backlog.1 he
  exact hstatus (Table.eq_of_key hf hmem hid ▸ hpending)

theorem id_notMem_of_nodup {l₁ l₂ : List OutboxEvent} (h : ((l₁ ++ l₂).map (·.id)).Nodup)
    (he : e ∈ l₁) : e.id ∉ l₂.map (·.id) := by
  rw [List.map_append, List.nodup_append] at h
  intro hmem
  exact h.2.2 _ (List.mem_map_of_mem he) _ hmem rfl

theorem Store.Settled.keep {st st' : Store} (h : st.Settled e)
    (hkeep : ∀ row ∈ st.outbox, row.id = e.id → row ∈ st'.outbox) : st'.Settled e := by
  obtain ⟨row, hrow, hstatus, hlock⟩ := h
  obtain ⟨hmem, hid⟩ := Table.get_eq_some.1 hrow
  exact ⟨row, Table.get_eq_some.2 ⟨hkeep row hmem hid, hid⟩, hstatus, hlock⟩

/-- What a step that leaves the outbox and the publisher alone keeps. -/
theorem Draining.frame (h : Draining s₀ p s returned recorded sent todo rest)
    (hnow : s.now ≤ s'.now) (hout : s'.store.outbox = s.store.outbox)
    (hp : s'.publishers p = s.publishers p) (hpub : s'.publishes = s.publishes) :
    Draining s₀ p s' returned recorded sent todo rest where
  now := h.now.trans hnow
  emptied := h.emptied
  batch := by
    rw [hp, hout]
    exact h.batch
  ids := by rw [hout, h.ids]
  settled e he := by
    unfold Store.Settled
    rw [hout]
    exact h.settled e he
  claimed e he := by
    rw [hout]
    exact h.claimed e he
  waiting e he := by
    rw [hout]
    exact h.waiting e he
  others e he hstatus := by
    rw [hout]
    exact h.others e he hstatus
  calls := by
    rw [hpub]
    exact h.calls
  total := h.total
  ended := h.ended

/-! ## The steps of a drain -/

/-- Between two calls, the claimable rows are those of the events that were never claimed. -/
theorem Draining.claimable (h : Draining s₀ p s returned recorded [] [] rest) (hs₀ : s₀.Ready p)
    {now : Time} (hnow : s.now ≤ now) (claimDeadline : Time) :
    (s.store.outbox.rows.filter fun e => e.claimable now claimDeadline && e.id ∉ []).Perm rest := by
  have hnodup : rest.Nodup := by
    have hids := nodup_of_emptied h.emptied
    rw [List.map_append] at hids
    exact (List.nodup_append.1 hids).2.1.of_map
  have hrows : s.store.outbox.rows.Nodup := s.store.outbox.nodup.of_map
  rw [List.perm_ext_iff_of_nodup (hrows.filter _) hnodup]
  intro row
  rw [List.mem_filter, Bool.and_eq_true]
  constructor
  · rintro ⟨hrow, hclaimable, -⟩
    have hid : row.id ∈ s₀.store.outbox.rows.map (·.id) := h.ids ▸ List.mem_map_of_mem hrow
    obtain ⟨e, he, heq⟩ := List.mem_map.1 hid
    by_cases hstatus : e.status = .pending
    · rcases h.emptied.mem_or (mem_backlog.2 ⟨he, hstatus⟩) with hout | hrest
      · -- a row that is recorded is published
        obtain ⟨r, hr, hpublished, -⟩ := h.settled e (by simpa using hout)
        obtain rfl : r = row := Table.eq_of_key (Table.mem_of_get hr) hrow
          ((Table.get_key hr).trans heq)
        have hopen := status_of_claimable hclaimable
        simp [hpublished] at hopen
      · exact Table.eq_of_key (h.waiting e hrest) hrow heq ▸ hrest
    · -- a row outside the backlog is as it was
      obtain rfl : e = row := Table.eq_of_key (h.others e he hstatus) hrow heq
      exact absurd (status_of_claimable hclaimable) (not_or.2 ⟨hstatus, hs₀.unclaimed e he⟩)
  · intro hrest
    have hback := h.emptied.mem_rest hrest
    have hwhen : ∀ t, row.availableAt = some t → t ≤ now := fun t ht =>
      (hs₀.available row hback t ht).trans (h.now.trans hnow)
    exact ⟨h.waiting row hrest, claimable_of_pending (mem_backlog.1 hback).2 hwhen, by simp⟩

/-- A claim takes the least events that were never claimed, and none only where there are none. -/
theorem Draining.selected (h : Draining s₀ p s returned recorded [] [] rest) (hs₀ : s₀.Ready p)
    {now claimDeadline : Time} (hnow : s.now ≤ now) {events : List OutboxEvent}
    (hevents : events = selectClaimable env.toSettings s.store now claimDeadline []) :
    ∃ rest', Emptied OutboxEvent.claimsBefore s₀.backlog (recorded ++ events) rest' ∧
      (∀ e ∈ events ++ rest', e ∈ s.store.outbox) ∧ (events = [] → rest' = []) := by
  have hbatch := h.emptied.batch (h.claimable hs₀ hnow claimDeadline) env.outboxBatchSize
  rw [List.append_nil, List.append_nil] at hbatch
  unfold selectClaimable at hevents
  generalize hsorted : List.insertionSort OutboxEvent.claimsBefore _ = sorted at hbatch hevents
  refine ⟨sorted.drop env.outboxBatchSize, hevents ▸ hbatch, ?_, ?_⟩
  · intro e he
    rw [hevents, List.take_append_drop, ← hsorted, List.mem_insertionSort] at he
    exact List.mem_of_mem_filter he
  · intro hnil
    have hsize : sorted.length ≤ env.outboxBatchSize ∨ env.outboxBatchSize = 0 := by
      rw [hnil, eq_comm, List.take_eq_nil_iff] at hevents
      rcases hevents with hzero | hempty
      · exact .inr hzero
      · exact .inl (by simp [hempty])
    rw [List.drop_eq_nil_iff]
    have hpos := env.outboxBatchSize_bounds.1
    omega

theorem Draining.claim (h : Draining s₀ p s returned recorded [] [] rest) (hs₀ : s₀.Ready p)
    {t₁ t₃ claimDeadline : Time} (h₁ : s.now ≤ t₁) (h₃ : t₁ ≤ t₃) {events : List OutboxEvent}
    (hevents : events = selectClaimable env.toSettings s.store t₁ claimDeadline []) :
    ∃ rest', Draining s₀ p { s.setPublisher p (.working (events.map (·.toClaimed))) with
      now := t₃
      store := claimRows s.store events t₃ } (returned ++ [events.length])
        recorded [] events rest' := by
  obtain ⟨rest', hnext, hstored, hempty⟩ := h.selected hs₀ h₁ hevents
  have hnd := nodup_of_emptied hnext
  have hnewer : ∀ e ∈ recorded, e.id ∉ events.map (·.id) := by
    intro e he hmem
    rw [List.append_assoc] at hnd
    refine id_notMem_of_nodup hnd he ?_
    rw [List.map_append]
    exact List.mem_append_left _ hmem
  have hlater : ∀ e ∈ rest', e.id ∉ events.map (·.id) := by
    intro e he hmem
    obtain ⟨f, hf, hid⟩ := List.mem_map.1 hmem
    exact id_notMem_of_nodup hnd (List.mem_append_right _ hf) (List.mem_map.2 ⟨e, he, hid.symm⟩)
  refine ⟨rest', ?_⟩
  constructor
  case now => exact h.now.trans (h₁.trans h₃)
  case emptied => simpa using hnext
  case batch => simpa [State.setPublisher] using Publisher.Holds.working
  case ids => exact claimRows_ids.trans h.ids
  case settled =>
    intro e he
    exact (h.settled e he).keep fun row hrow hid => claimRows_keeps hrow (hid ▸ hnewer e he)
  case claimed =>
    intro e he
    exact ⟨t₃, claimRows_claims (hstored e (List.mem_append_left _ he)) he⟩
  case waiting =>
    intro e he
    exact claimRows_keeps (hstored e (List.mem_append_right _ he)) (hlater e he)
  case others =>
    intro e he hstatus
    refine claimRows_keeps (h.others e he hstatus) fun hmem => ?_
    obtain ⟨f, hf, hid⟩ := List.mem_map.1 hmem
    have hback : f ∈ s₀.backlog := hnext.mem_out (List.mem_append_right _ hf)
    exact id_ne_of_others hback he hstatus hid.symm
  case calls => exact h.calls
  case total => simp [h.total]
  case ended =>
    intro hzero
    have hnil : events = [] := by simpa using hzero
    simp [hnil, hempty hnil]

theorem Draining.load (h : Draining s₀ p s returned recorded [] (e :: todo) rest)
    (hrow : e.claimed t ∈ s.store.outbox) :
    Draining s₀ p (s.setPublisher p (.loaded e.toClaimed (e.claimed t) (todo.map (·.toClaimed))))
      returned recorded [] (e :: todo) rest :=
  { h with batch := by simpa [State.setPublisher] using Publisher.Holds.loaded hrow }

theorem Draining.publish (h : Draining s₀ p s returned recorded [] (e :: todo) rest)
    (hrow : e.claimed t ∈ s.store.outbox) (broker : Broker) :
    Draining s₀ p
      { s.setPublisher p (.published (e.claimed t) (todo.map (·.toClaimed))) with
        broker
        publishes := s.publishes ++ [⟨e.id, s.now, false⟩] }
      returned recorded [e] todo rest where
  now := h.now
  emptied := by simpa using h.emptied
  batch := by simpa [State.setPublisher] using Publisher.Holds.published hrow
  ids := h.ids
  settled := h.settled
  claimed := h.claimed
  waiting := h.waiting
  others := h.others
  calls := by
    obtain ⟨calls, hcalls, hevents, hraised⟩ := h.calls
    refine ⟨calls ++ [⟨e.id, s.now, false⟩], by simp [hcalls], by simpa using hevents, ?_⟩
    intro c hc
    rcases List.mem_append.1 hc with hc | hc
    · exact hraised c hc
    · rw [List.mem_singleton.1 hc]
  total := by simpa using h.total
  ended := by simpa using h.ended

theorem Draining.record (h : Draining s₀ p s returned recorded [e] todo rest)
    (hrow : e.claimed t ∈ s.store.outbox) {t' : Time} (ht : s.now ≤ t') :
    Draining s₀ p
      { s.setPublisher p (.working (todo.map (·.toClaimed))) with
        now := t'
        store := s.store.saveOutboxEvent (e.claimed t) ((e.claimed t).markPublished t') }
      returned (recorded ++ [e]) [] todo rest := by
  have hperm : (recorded ++ [e] ++ todo ++ rest).Perm (e :: (recorded ++ (todo ++ rest))) := by
    simp
  have hnd := (hperm.map (·.id)).nodup_iff.1 (nodup_of_emptied h.emptied)
  rw [List.map_cons, List.nodup_cons] at hnd
  have hne : ∀ f ∈ recorded ++ (todo ++ rest), f.id ≠ e.id := fun f hf hid =>
    hnd.1 (hid ▸ List.mem_map_of_mem hf)
  constructor
  case now => exact h.now.trans ht
  case emptied => simpa using h.emptied
  case batch => simpa [State.setPublisher] using Publisher.Holds.working
  case ids => exact saveOutboxEvent_ids.trans h.ids
  case settled =>
    intro f hf
    rcases List.mem_append.1 hf with hf | hf
    · refine (h.settled f hf).keep fun row hrow' hid => saveOutboxEvent_keeps hrow' ?_
      exact hid.symm ▸ hne f (List.mem_append_left _ hf)
    · rw [List.mem_singleton.1 hf]
      have hsaved := saveOutboxEvent_saves ((e.claimed t).markPublished t') hrow
      rw [writeBack_markPublished] at hsaved
      exact ⟨_, Table.get_eq_some.2 ⟨hsaved, rfl⟩, rfl, rfl⟩
  case claimed =>
    intro f hf
    obtain ⟨t₀, hf₀⟩ := h.claimed f (List.mem_append_right _ hf)
    have hmem : f ∈ recorded ++ (todo ++ rest) :=
      List.mem_append_right _ (List.mem_append_left _ hf)
    exact ⟨t₀, saveOutboxEvent_keeps hf₀ (hne f hmem)⟩
  case waiting =>
    intro f hf
    exact saveOutboxEvent_keeps (h.waiting f hf) (hne f (by simp [hf]))
  case others =>
    intro f hf hstatus
    refine saveOutboxEvent_keeps (h.others f hf hstatus) ?_
    exact id_ne_of_others (e := e) (h.emptied.mem_out (by simp)) hf hstatus
  case calls =>
    obtain ⟨calls, hcalls, hevents, hraised⟩ := h.calls
    exact ⟨calls, hcalls, by simpa using hevents, hraised⟩
  case total => simpa using h.total
  case ended =>
    intro hzero
    exact absurd (h.ended hzero) (by simp)

theorem Draining.return (h : Draining s₀ p s returned recorded [] [] rest) :
    Draining s₀ p (s.setPublisher p .idle) returned recorded [] [] rest :=
  { h with batch := by simpa [State.setPublisher] using Publisher.Holds.idle }

/-! ## The run of a drain -/

section holds

variable {outbox : Table OutboxEvent.id} {c : ClaimedOutboxEvent} {row : OutboxEvent}
  {l : List ClaimedOutboxEvent}

theorem holds_idle (h : Publisher.idle.Holds outbox sent todo) : sent = [] ∧ todo = [] := by
  cases h
  exact ⟨rfl, rfl⟩

theorem holds_working (h : (Publisher.working l).Holds outbox sent todo) :
    sent = [] ∧ l = todo.map (·.toClaimed) := by
  cases h
  exact ⟨rfl, rfl⟩

theorem holds_loaded (h : (Publisher.loaded c row l).Holds outbox sent todo) :
    ∃ e t todo', sent = [] ∧ todo = e :: todo' ∧ c = e.toClaimed ∧ row = e.claimed t ∧
      l = todo'.map (·.toClaimed) ∧ e.claimed t ∈ outbox := by
  cases h with
  | loaded hrow => exact ⟨_, _, _, rfl, rfl, rfl, rfl, rfl, hrow⟩

theorem holds_published (h : (Publisher.published row l).Holds outbox sent todo) :
    ∃ e t, sent = [e] ∧ row = e.claimed t ∧ l = todo.map (·.toClaimed) ∧ e.claimed t ∈ outbox := by
  cases h with
  | published hrow => exact ⟨_, _, rfl, rfl, rfl, hrow⟩

theorem not_holds_raised {error : String} :
    ¬ (Publisher.raised row error l).Holds outbox sent todo := nofun

end holds

/-- The drain that began in `s₀` stands somewhere. -/
def DrainsFrom (s₀ : State) (p : Nat) (x : State × List Nat) : Prop :=
  ∃ recorded sent todo rest, Draining s₀ p x.1 x.2 recorded sent todo rest

theorem publisher_of_drainsAlone {q : Nat} {b : PublisherAction}
    (h : DrainsAlone env p s (.publisher q b)) : q = p := by
  cases b with
  | claim => exact h.1
  | load | publish | record | done => exact h
  | publishRaises | crash => exact absurd h id

theorem drainsFrom_publisher (hs₀ : s₀.Ready p)
    (hd : Draining s₀ p s returned recorded sent todo rest) {q : Nat} {b : PublisherAction}
    (hok : DrainsAlone env p s (.publisher q b)) (h : publisherStep env s q b = some s') :
    DrainsFrom s₀ p (s', noteReturn returned s (.publisher q b) s') := by
  obtain rfl : q = p := publisher_of_drainsAlone hok
  have hb := hd.batch
  cases publisherStep_inv h with
  | @claim t₁ t₂ t₃ claimDeadline locked hp h₁ h₂ h₃ =>
    obtain rfl : locked = [] := hok.2
    rw [hp] at hb
    obtain ⟨rfl, rfl⟩ := holds_idle hb
    generalize hevents : selectClaimable env.toSettings s.store t₁ claimDeadline [] = events
    obtain ⟨rest', hnext⟩ := hd.claim hs₀ h₁ (h₂.trans h₃) hevents.symm
    refine ⟨recorded, [], events, rest', ?_⟩
    simpa [noteReturn, State.setPublisher, Publisher.claims, OutboxEvent.toClaimed] using hnext
  | skip hp hnone =>
    rw [hp] at hb
    obtain ⟨rfl, hl⟩ := holds_working hb
    obtain ⟨e, todo', rfl, rfl, rfl⟩ := List.map_eq_cons_iff.1 hl.symm
    -- the row of a claimed event is there
    obtain ⟨t, ht⟩ := hd.claimed e (by simp)
    exact absurd rfl (Table.get_eq_none.1 hnone (e.claimed t) ht)
  | load hp hrow =>
    rw [hp] at hb
    obtain ⟨rfl, hl⟩ := holds_working hb
    obtain ⟨e, todo', rfl, rfl, rfl⟩ := List.map_eq_cons_iff.1 hl.symm
    obtain ⟨t, ht⟩ := hd.claimed e (by simp)
    obtain rfl := Table.eq_of_key (Table.mem_of_get hrow) ht (Table.get_key hrow)
    exact ⟨recorded, [], e :: todo', rest, hd.load ht⟩
  | publish hp =>
    rw [hp] at hb
    obtain ⟨e, t, todo', rfl, rfl, rfl, rfl, rfl, ht⟩ := holds_loaded hb
    exact ⟨recorded, [e], todo', rest, hd.publish ht _⟩
  | recordPublished hp hnow =>
    rw [hp] at hb
    obtain ⟨e, t, rfl, rfl, rfl, ht⟩ := holds_published hb
    exact ⟨recorded ++ [e], [], todo, rest, hd.record ht hnow⟩
  | recordRaised hp =>
    rw [hp] at hb
    exact absurd hb not_holds_raised
  | done hp =>
    rw [hp] at hb
    obtain ⟨rfl, hl⟩ := holds_working hb
    obtain rfl := List.map_eq_nil_iff.1 hl.symm
    exact ⟨recorded, [], [], rest, hd.return⟩
  | publishRaises | crash => exact absurd hok id

theorem drainsFrom_step (hs₀ : s₀.Ready p) (hd : DrainsFrom s₀ p (s, returned))
    (hok : DrainsAlone env p s a) (h : step env s a = some s') :
    DrainsFrom s₀ p (s', noteReturn returned s a s') := by
  obtain ⟨recorded, sent, todo, rest, hd⟩ := hd
  have hnow := (change_of_step h).now_le
  rcases step_party h with ⟨w, b, rfl, hw⟩ | ⟨q, b, rfl, hq⟩ | hf
  · have hframe := workerStep_frame hw
    exact ⟨recorded, sent, todo, rest,
      hd.frame hnow (hok s' h) (congrFun hframe.publishers p) hframe.publishes⟩
  · exact drainsFrom_publisher hs₀ hd hok hq
  · cases a with
    | publisher q b => exact drainsFrom_publisher hs₀ hd hok h
    | worker | tick | request | cleaner | redisExpire =>
      exact ⟨recorded, sent, todo, rest,
        hd.frame hnow (hok s' h) (congrFun hf.publishers p) hf.publishes⟩

/-- **The invariant of a drain.** -/
theorem draining_run {x y : State × List Nat} {as : List Action} (hs₀ : s₀.Ready p)
    (hx : DrainsFrom s₀ p x) (hrun : DrainRun env p x as y) : DrainsFrom s₀ p y := by
  induction hrun with
  | nil => exact hx
  | snoc _ hok hstep ih =>
    obtain ⟨ht, hreturned⟩ := Machine.step_withHistory.1 hstep
    have hnext := drainsFrom_step hs₀ ih hok ht
    rwa [← hreturned] at hnext

/-! ## The queues -/

/-- The messages of the events that the broker routes to a queue. -/
def messagesTo (q : QueueName) (events : List OutboxEvent) : List Message :=
  (events.filter fun e => publishOutboxEvent e.eventType e.payload = some q).map
    (·.toClaimed.message)

/-- The events that publish calls are about. -/
def eventsOfCalls (s₀ : State) (calls : List PublishCall) : List OutboxEvent :=
  calls.filterMap fun c => s₀.store.outbox.get c.event

/-- Since `s₀` each queue has got the messages of the events that were published, in order. -/
def Queued (s₀ s : State) : Prop :=
  ∃ calls, s.publishes = s₀.publishes ++ calls ∧
    ∀ q, s.broker.queues q = s₀.broker.queues q ++ messagesTo q (eventsOfCalls s₀ calls)

theorem queued_publisher (hd : DrainsFrom s₀ p (s, returned)) (hs : Queued s₀ s) {q : Nat}
    {b : PublisherAction} (hok : DrainsAlone env p s (.publisher q b))
    (h : publisherStep env s q b = some s') : Queued s₀ s' := by
  obtain rfl : q = p := publisher_of_drainsAlone hok
  obtain ⟨recorded, sent, todo, rest, hd⟩ := hd
  have hb := hd.batch
  cases publisherStep_inv h with
  | claim | skip | load | recordPublished | recordRaised | done => exact hs
  | @publish _ _ _ queue hp hroute =>
    rw [hp] at hb
    obtain ⟨e, t, todo', rfl, rfl, rfl, rfl, rfl, -⟩ := holds_loaded hb
    have hback : e ∈ s₀.backlog := hd.emptied.mem_out (by simp)
    have hget : s₀.store.outbox.get e.id = some e := Table.get_of_mem (mem_backlog.1 hback).1
    obtain ⟨calls, hcalls, hqueues⟩ := hs
    refine ⟨calls ++ [⟨e.id, s.now, false⟩], by simp [hcalls, OutboxEvent.toClaimed], fun q => ?_⟩
    have hsent : messagesTo q [e] = if q = queue then [e.toClaimed.message] else [] := by
      have hroute' : publishOutboxEvent e.eventType e.payload = some queue := hroute
      by_cases hq : q = queue
      · simp [messagesTo, hroute', hq]
      · simp [messagesTo, hroute', hq, Ne.symm hq]
    have hnew : messagesTo q (eventsOfCalls s₀ (calls ++ [⟨e.id, s.now, false⟩])) =
        messagesTo q (eventsOfCalls s₀ calls) ++ messagesTo q [e] := by
      simp [messagesTo, eventsOfCalls, hget]
    rw [hnew, hsent, ← List.append_assoc, ← hqueues]
    by_cases hq : q = queue
    · subst hq
      simp [Broker.push]
    · simp [Broker.push, hq]
  | publishRaises | crash => exact absurd hok id

theorem queued_step (hd : DrainsFrom s₀ p (s, returned)) (hs : Queued s₀ s)
    (hok : DrainsAlone env p s a) (hw : ∀ w b, a ≠ .worker w b) (h : step env s a = some s') :
    Queued s₀ s' := by
  rcases step_party h with ⟨w, b, rfl, -⟩ | ⟨q, b, rfl, hq⟩ | hf
  · exact absurd rfl (hw w b)
  · exact queued_publisher hd hs hok hq
  · cases a with
    | publisher q b => exact queued_publisher hd hs hok h
    | worker w b => exact absurd rfl (hw w b)
    | tick | request | cleaner | redisExpire =>
      unfold Queued
      rw [hf.publishes, hf.broker]
      exact hs

/-- While no worker takes a message, the queues show what was published. -/
theorem queued_run {x y : State × List Nat} {as : List Action} (hs₀ : s₀.Ready p)
    (hx : DrainsFrom s₀ p x) (hs : Queued s₀ x.1) (hrun : DrainRun env p x as y)
    (hw : ∀ w b, Action.worker w b ∉ as) : Queued s₀ y.1 := by
  induction hrun with
  | nil => exact hs
  | @snoc as _ _ a hpre hok hstep ih =>
    have hbefore := ih fun w b hmem => hw w b (List.mem_append_left _ hmem)
    have hlast : ∀ w b, a ≠ .worker w b := fun w b heq => hw w b (by simp [heq])
    exact queued_step (draining_run hs₀ hx hpre) hbefore hok hlast
      (Machine.step_withHistory.1 hstep).1

/-! ## The end of a drain -/

/-- How many steps a publisher needs at most until the last event is recorded, when so many events
are not claimed. -/
def Publisher.stepsLeft (unclaimed : Nat) : Publisher → Nat
  | .idle => 5 * unclaimed
  | .working todo => 5 * unclaimed + 3 * todo.length + 1
  | .published _ todo => 5 * unclaimed + 3 * todo.length + 2
  | .loaded _ _ todo => 5 * unclaimed + 3 * todo.length + 3
  | .raised _ _ _ => 0

/-- The variant of a drain whose claims compute their deadline. -/
def DrainsIn (env : Deployment) (s₀ : State) (p n : Nat) (x : State × List Nat) : Prop :=
  ∃ recorded sent todo rest, Draining s₀ p x.1 x.2 recorded sent todo rest ∧
    (addSeconds x.1.now (-env.outboxClaimTimeoutSeconds)).isSome = true ∧
      (x.1.publishers p).stepsLeft rest.length = n

/-- Everything is recorded, and the last call has returned. -/
def AllRecorded (s₀ : State) (p : Nat) (x : State × List Nat) : Prop :=
  x.1.publishers p = .idle ∧ ∃ recorded, Draining s₀ p x.1 x.2 recorded [] [] []

/-- A step of a drain that brings it nearer to its end. -/
def NearsEnd (env : Deployment) (s₀ : State) (p n : Nat) (x : State × List Nat) : Prop :=
  ∃ a y m, m < n ∧ DrainsAlone env p x.1 a ∧ (drainMachine env).step x a = some y ∧
    DrainsIn env s₀ p m y

theorem drain_step (h : step env s a = some s') :
    (drainMachine env).step (s, returned) a = some (s', noteReturn returned s a s') :=
  Machine.step_withHistory.2 ⟨h, rfl⟩

theorem nearsEnd_of_step {n m : Nat} (h : step env s a = some s') (hok : DrainsAlone env p s a)
    (hlt : m < n) (hd : DrainsIn env s₀ p m (s', noteReturn returned s a s')) :
    NearsEnd env s₀ p n (s, returned) :=
  ⟨a, (s', noteReturn returned s a s'), m, hlt, hok, drain_step h, hd⟩

/-- Between two calls a claim at the present time is possible. What it takes is what it leaves
fewer. -/
theorem Draining.claim_now (h : Draining s₀ p s returned recorded [] [] rest) (hs₀ : s₀.Ready p)
    (hp : s.publishers p = .idle)
    (hdeadline : (addSeconds s.now (-env.outboxClaimTimeoutSeconds)).isSome = true) :
    ∃ events rest' s', step env s (.publisher p (.claim s.now s.now s.now [])) = some s' ∧
      s'.now = s.now ∧ s'.publishers p = .working (events.map (·.toClaimed)) ∧
      noteReturn returned s (.publisher p (.claim s.now s.now s.now [])) s' =
        returned ++ [events.length] ∧
      Draining s₀ p s' (returned ++ [events.length]) recorded [] events rest' ∧
      events.length + rest'.length = rest.length := by
  obtain ⟨claimDeadline, hclaim⟩ := Option.isSome_iff_exists.1 hdeadline
  generalize hevents : selectClaimable env.toSettings s.store s.now claimDeadline [] = events
  have hstep : step env s (.publisher p (.claim s.now s.now s.now [])) =
      some { s.setPublisher p (.working (events.map (·.toClaimed))) with
        now := s.now
        store := claimRows s.store events s.now } := by
    simp [step, publisherStep, hp, claimPending, hclaim, hevents, OutboxEvent.toClaimed]
  obtain ⟨rest', hnext⟩ := h.claim hs₀ le_rfl le_rfl hevents.symm
  refine ⟨events, rest', _, hstep, rfl, ?_, ?_, hnext, ?_⟩
  · simp [State.setPublisher]
  · simp [noteReturn, State.setPublisher, Publisher.claims]
  · have hbefore := h.emptied.length
    have hafter := hnext.emptied.length
    simp only [List.append_nil, List.length_append] at hbefore hafter
    omega

theorem nearsEnd_idle (hs₀ : s₀.Ready p) (hd : Draining s₀ p s returned recorded [] [] rest)
    (hp : s.publishers p = .idle) (hrest : rest ≠ [])
    (hdeadline : (addSeconds s.now (-env.outboxClaimTimeoutSeconds)).isSome = true) :
    NearsEnd env s₀ p (5 * rest.length) (s, returned) := by
  obtain ⟨events, rest', s', hstep, hnow, hp', hreturn, hnext, hsize⟩ :=
    hd.claim_now hs₀ hp hdeadline
  have hpos : events.length ≠ 0 := by
    intro hzero
    have hempty := hnext.ended (by simp [hzero])
    simp only [List.nil_append, List.append_eq_nil_iff] at hempty
    rw [hempty.1, hempty.2] at hsize
    exact hrest (List.length_eq_zero_iff.1 hsize.symm)
  refine nearsEnd_of_step (m := 5 * rest'.length + 3 * events.length + 1) hstep ⟨rfl, rfl⟩
    (by omega) ⟨recorded, [], events, rest', hreturn ▸ hnext, hnow ▸ hdeadline, ?_⟩
  simp [hp', Publisher.stepsLeft]

theorem nearsEnd_done (hd : Draining s₀ p s returned recorded [] [] rest)
    (hp : s.publishers p = .working [])
    (hdeadline : (addSeconds s.now (-env.outboxClaimTimeoutSeconds)).isSome = true) :
    NearsEnd env s₀ p (5 * rest.length + 1) (s, returned) := by
  have hstep : step env s (.publisher p .done) = some (s.setPublisher p .idle) := by
    simp [step, publisherStep, hp]
  refine nearsEnd_of_step (m := 5 * rest.length) hstep rfl (by omega)
    ⟨recorded, [], [], rest, hd.return, hdeadline, ?_⟩
  simp [State.setPublisher, Publisher.stepsLeft]

theorem nearsEnd_working (hd : Draining s₀ p s returned recorded [] (e :: todo) rest)
    (hp : s.publishers p = .working ((e :: todo).map (·.toClaimed)))
    (hdeadline : (addSeconds s.now (-env.outboxClaimTimeoutSeconds)).isSome = true) :
    NearsEnd env s₀ p (5 * rest.length + 3 * (todo.length + 1) + 1) (s, returned) := by
  obtain ⟨t, ht⟩ := hd.claimed e (by simp)
  have hget : s.store.outbox.get e.toClaimed.id = some (e.claimed t) :=
    Table.get_eq_some.2 ⟨ht, rfl⟩
  have hstep : step env s (.publisher p .load) =
      some (s.setPublisher p (.loaded e.toClaimed (e.claimed t) (todo.map (·.toClaimed)))) := by
    simp [step, publisherStep, hp, hget]
  refine nearsEnd_of_step (m := 5 * rest.length + 3 * todo.length + 3) hstep rfl (by omega)
    ⟨recorded, [], e :: todo, rest, hd.load ht, hdeadline, ?_⟩
  simp [State.setPublisher, Publisher.stepsLeft]

theorem nearsEnd_loaded (hd : Draining s₀ p s returned recorded [] (e :: todo) rest)
    (hp : s.publishers p = .loaded e.toClaimed (e.claimed t) (todo.map (·.toClaimed)))
    (ht : e.claimed t ∈ s.store.outbox)
    (hroute : (publishOutboxEvent e.eventType e.payload).isSome = true)
    (hdeadline : (addSeconds s.now (-env.outboxClaimTimeoutSeconds)).isSome = true) :
    NearsEnd env s₀ p (5 * rest.length + 3 * todo.length + 3) (s, returned) := by
  obtain ⟨queue, hqueue⟩ := Option.isSome_iff_exists.1 hroute
  have hstep : step env s (.publisher p .publish) =
      some { s.setPublisher p (.published (e.claimed t) (todo.map (·.toClaimed))) with
        broker := s.broker.push queue e.toClaimed.message
        publishes := s.publishes ++ [⟨e.id, s.now, false⟩] } := by
    simp [step, publisherStep, hp, OutboxEvent.toClaimed, hqueue]
  refine nearsEnd_of_step (m := 5 * rest.length + 3 * todo.length + 2) hstep rfl (by omega)
    ⟨recorded, [e], todo, rest, hd.publish ht _, hdeadline, ?_⟩
  simp [State.setPublisher, Publisher.stepsLeft]

theorem nearsEnd_published (hd : Draining s₀ p s returned recorded [e] todo rest)
    (hp : s.publishers p = .published (e.claimed t) (todo.map (·.toClaimed)))
    (ht : e.claimed t ∈ s.store.outbox)
    (hdeadline : (addSeconds s.now (-env.outboxClaimTimeoutSeconds)).isSome = true) :
    NearsEnd env s₀ p (5 * rest.length + 3 * todo.length + 2) (s, returned) := by
  have hstep : step env s (.publisher p (.record s.now)) =
      some { s.setPublisher p (.working (todo.map (·.toClaimed))) with
        now := s.now
        store := s.store.saveOutboxEvent (e.claimed t) ((e.claimed t).markPublished s.now) } := by
    simp [step, publisherStep, hp]
  refine nearsEnd_of_step (m := 5 * rest.length + 3 * todo.length + 1) hstep rfl (by omega)
    ⟨recorded ++ [e], [], todo, rest, hd.record ht le_rfl, hdeadline, ?_⟩
  simp [State.setPublisher, Publisher.stepsLeft]

/-- **Progress.** Short of its end, a drain of events that can be published has a step that brings
it nearer. -/
theorem nearsEnd (hs₀ : s₀.Ready p)
    (hroute : ∀ e ∈ s₀.backlog, (publishOutboxEvent e.eventType e.payload).isSome = true) (n : Nat)
    (x : State × List Nat) (hx : DrainsIn env s₀ p n x) (hend : ¬ AllRecorded s₀ p x) :
    NearsEnd env s₀ p n x := by
  obtain ⟨s, returned⟩ := x
  obtain ⟨recorded, sent, todo, rest, hd, hdeadline, rfl⟩ := hx
  have hb := hd.batch
  cases hp : s.publishers p with
  | idle =>
    rw [hp] at hb
    obtain ⟨rfl, rfl⟩ := holds_idle hb
    refine nearsEnd_idle hs₀ hd hp ?_ hdeadline
    rintro rfl
    exact hend ⟨hp, recorded, hd⟩
  | working l =>
    rw [hp] at hb
    obtain ⟨rfl, rfl⟩ := holds_working hb
    cases todo with
    | nil => exact nearsEnd_done hd hp hdeadline
    | cons e todo => simpa [Publisher.stepsLeft] using nearsEnd_working hd hp hdeadline
  | loaded c row l =>
    rw [hp] at hb
    obtain ⟨e, t, todo, rfl, rfl, rfl, rfl, rfl, ht⟩ := holds_loaded hb
    have hback : e ∈ s₀.backlog := hd.emptied.mem_out (by simp)
    simpa [Publisher.stepsLeft] using nearsEnd_loaded hd hp ht (hroute e hback) hdeadline
  | published row l =>
    rw [hp] at hb
    obtain ⟨e, t, rfl, rfl, rfl, ht⟩ := holds_published hb
    simpa [Publisher.stepsLeft] using nearsEnd_published hd hp ht hdeadline
  | raised =>
    rw [hp] at hb
    exact absurd hb not_holds_raised

theorem last_call {x : State × List Nat} (hs₀ : s₀.Ready p) (hx : AllRecorded s₀ p x)
    (hdeadline : (addSeconds x.1.now (-env.outboxClaimTimeoutSeconds)).isSome = true) :
    ∃ a y, DrainsAlone env p x.1 a ∧ (drainMachine env).step x a = some y ∧
      y.2.getLast? = some 0 := by
  obtain ⟨s, returned⟩ := x
  obtain ⟨hp, recorded, hd⟩ := hx
  obtain ⟨events, rest', s', hstep, -, -, hreturn, -, hsize⟩ := hd.claim_now hs₀ hp hdeadline
  have hnone : events.length = 0 := (Nat.add_eq_zero_iff.1 hsize).1
  have hok : DrainsAlone env p s (.publisher p (.claim s.now s.now s.now [])) := ⟨rfl, rfl⟩
  refine ⟨_, _, hok, drain_step hstep, ?_⟩
  rw [hreturn, hnone, List.getLast?_concat]

/-- **A drain can be brought to its end** from any of its states. -/
theorem drain_completes {x : State × List Nat} (hs₀ : s₀.Ready p) (hx : DrainsFrom s₀ p x)
    (hroute : ∀ e ∈ s₀.backlog, (publishOutboxEvent e.eventType e.payload).isSome = true)
    (hdeadline : (addSeconds x.1.now (-env.outboxClaimTimeoutSeconds)).isSome = true) :
    ∃ as y, DrainRun env p x as y ∧ y.2.getLast? = some 0 := by
  obtain ⟨recorded, sent, todo, rest, hd⟩ := hx
  obtain ⟨as, y, m, hrun, ⟨_, _, _, _, _, hy, _⟩, hend⟩ :=
    Machine.Run.exists_of_variant (nearsEnd hs₀ hroute)
      ⟨recorded, sent, todo, rest, hd, hdeadline, rfl⟩
  obtain ⟨a, z, hok, hstep, hz⟩ := last_call hs₀ hend hy
  exact ⟨as ++ [a], z, hrun.snoc hok hstep, hz⟩

end draining

/-! ## What a drain publishes -/

/-- A drain that began in `s` and has led to `s'` has published the backlog in this order, with one
call for each event. -/
structure DrainedInOrder (s s' : State) (order : List OutboxEvent) : Prop where
  once : order.Perm s.backlog
  calls : ∃ calls, s'.publishes = s.publishes ++ calls ∧
    calls.map (·.event) = order.map (·.id) ∧ ∀ c ∈ calls, c.raised = false
  settled : ∀ e ∈ s.backlog, s'.store.Settled e
  highFirst : order.Pairwise fun e f => f.payload.routingKey = "notification.high" →
    e.payload.routingKey = "notification.high"
  oldestFirst : order.Pairwise fun e f => e.priority = f.priority → e.createdAt ≤ f.createdAt

section drained

variable {returned : List Nat} {recorded sent todo rest : List OutboxEvent}

theorem Draining.drained (h : Draining s₀ p s returned recorded sent todo rest)
    (hzero : returned.getLast? = some 0) :
    DrainedInOrder s₀ s recorded ∧ recorded.Pairwise OutboxEvent.claimsBefore := by
  have hempty := h.ended hzero
  simp only [List.append_eq_nil_iff] at hempty
  obtain ⟨⟨rfl, rfl⟩, rfl⟩ := hempty
  have hemptied := h.emptied
  rw [List.append_nil, List.append_nil] at hemptied
  obtain ⟨hperm, hordered⟩ := hemptied.of_nil
  refine ⟨⟨hperm, ?_, ?_, ?_, ?_⟩, hordered⟩
  · simpa using h.calls
  · intro e he
    exact h.settled e (hperm.symm.subset he)
  · exact hordered.imp high_of_claimsBefore
  · exact hordered.imp createdAt_of_claimsBefore

/-- The queues at the end, from those at the start and the order of the publish calls. -/
theorem Queued.drained (hs : Queued s₀ s) {order : List OutboxEvent}
    (h : DrainedInOrder s₀ s order) (q : QueueName) :
    s.broker.queues q = s₀.broker.queues q ++ messagesTo q order := by
  obtain ⟨calls, hcalls, hqueues⟩ := hs
  obtain ⟨calls', hcalls', hevents, -⟩ := h.calls
  obtain rfl := List.append_cancel_left (hcalls.symm.trans hcalls')
  have hget : ∀ e ∈ order, s₀.store.outbox.get e.id = some e := fun e he =>
    Table.get_of_mem (mem_backlog.1 (h.once.subset he)).1
  have horder : eventsOfCalls s₀ calls = order := by
    calc eventsOfCalls s₀ calls
        = (calls.map (·.event)).filterMap s₀.store.outbox.get := by
          rw [List.filterMap_map]; rfl
      _ = order.filterMap fun e => s₀.store.outbox.get e.id := by
          rw [hevents, List.filterMap_map]; rfl
      _ = order.filterMap some := List.filterMap_congr hget
      _ = order := List.filterMap_some
  rw [hqueues, horder]

theorem Draining.calls_le (h : Draining s₀ p s returned recorded sent todo rest)
    (hpos : ∀ n ∈ returned, 0 < n) : returned.length ≤ s₀.backlog.length := by
  have htotal : returned.sum ≤ s₀.backlog.length := by
    rw [h.total, ← h.emptied.length]
    exact Nat.le_add_right _ _
  exact (List.length_le_sum_of_one_le returned hpos).trans htotal

end drained

/-- **Draining the outbox is exactly-once and priority-ordered.** A call returns 0 after at most as
many calls as there are events, and a drain of events that can be published always comes to that
point. By then each event has been published by one call, events with the routing key
`notification.high` before all others and the older ones first, and its row is published and
unlocked. Up to ties the order is known before the deployment, hence before the batch size. Where
no worker takes a message meanwhile, each queue has got the messages that are routed to it, in
that order. -/
theorem drain_exactly_once (hs : s.Ready p) :
    ∃ keys : List (Nat ×ₗ Time), ∀ (env : Deployment) (as : List Action) (x : State × List Nat),
      DrainRun env p (s, []) as x →
        ((∀ n ∈ x.2, 0 < n) → x.2.length ≤ s.backlog.length) ∧
        ((∀ e ∈ s.backlog, (publishOutboxEvent e.eventType e.payload).isSome = true) →
          (addSeconds x.1.now (-env.outboxClaimTimeoutSeconds)).isSome = true →
            ∃ bs y, DrainRun env p x bs y ∧ y.2.getLast? = some 0) ∧
        (x.2.getLast? = some 0 →
          ∃ order, DrainedInOrder s x.1 order ∧ order.map (·.sortKey) = keys ∧
            ((∀ w b, Action.worker w b ∉ as) →
              ∀ q, x.1.broker.queues q = s.broker.queues q ++ messagesTo q order)) := by
  let sorted := s.backlog.insertionSort OutboxEvent.claimsBefore
  refine ⟨sorted.map (·.sortKey), fun env as x hrun => ?_⟩
  have hstart : DrainsFrom s p (s, []) := ⟨[], [], [], s.backlog, draining_start hs⟩
  have hx : DrainsFrom s p x := draining_run hs hstart hrun
  refine ⟨?_, drain_completes hs hx, fun hzero => ?_⟩
  · obtain ⟨recorded, sent, todo, rest, hd⟩ := hx
    exact hd.calls_le
  · obtain ⟨recorded, sent, todo, rest, hd⟩ := hx
    obtain ⟨hdrained, hordered⟩ := hd.drained hzero
    refine ⟨recorded, hdrained, ?_, fun hw => ?_⟩
    swap
    · have hqueued : Queued s x.1 :=
        queued_run hs hstart ⟨[], by simp, by simp [messagesTo, eventsOfCalls]⟩ hrun hw
      exact hqueued.drained hdrained
    have hsorted : sorted.Perm s.backlog := List.perm_insertionSort _ _
    refine map_key_eq_of_pairwise (fun e f => claimsBefore_iff.1)
      (hdrained.once.trans hsorted.symm) hordered ?_
    exact List.pairwise_insertionSort _ _

/-- An event that waits, of the sample's request. -/
def Sample.waiting (id : Uuid) (eventType : EventType) (routingKey : String) (createdAt : Time) :
    OutboxEvent where
  id := id
  aggregateId := 1
  eventType := eventType
  payload := { (createdEvent request id (fun _ => 0) 0 7).payload with routingKey }
  createdAt := createdAt
  availableAt := some createdAt

/-- Four events wait at time 9. -/
def Sample.backlogged : State :=
  { State.initial 9 with
    store := { Store.empty with
      outbox := ⟨[waiting 3 .created "notification.low" 5,
        waiting 4 .failed "notification.other" 2,
        waiting 5 .retryScheduled "notification.high" 8,
        waiting 6 .created "notification.high" 7], by decide⟩ } }

/-- A deployment that claims two events at a time. -/
def Sample.pairs : Deployment :=
  { Sample.env with outboxBatchSize := 2, outboxBatchSize_bounds := by decide }

/-- A call that claims two events. -/
def Sample.callOfTwo : List Action :=
  [.publisher 0 (.claim 9 9 9 []), .publisher 0 .load, .publisher 0 .publish,
    .publisher 0 (.record 9), .publisher 0 .load, .publisher 0 .publish, .publisher 0 (.record 9),
    .publisher 0 .done]

/-- The calls of a drain, the last of which returns 0. -/
def Sample.drain : List Action := callOfTwo ++ callOfTwo ++ [.publisher 0 (.claim 9 9 9 [])]

theorem drain_exactly_once_pairs : ∃ (x : State × List Nat) (order : List OutboxEvent),
    DrainRun Sample.pairs 0 (Sample.backlogged, []) Sample.drain x ∧ x.2 = [2, 2, 0] ∧
      x.1.publishes.map (·.event) = [6, 5, 4, 3] ∧
      DrainedInOrder Sample.backlogged x.1 order ∧
      ∀ q, x.1.broker.queues q = Sample.backlogged.broker.queues q ++ messagesTo q order := by
  have hready : Sample.backlogged.Ready 0 := by
    refine ⟨rfl, ?_, by change ∀ e ∈ Sample.backlogged.store.outbox.rows, _; decide⟩
    have hdue : ∀ e ∈ Sample.backlogged.backlog, e.availableAt.all (· ≤ 9) = true := by decide
    intro e he t ht
    change t ≤ 9
    simpa [ht] using hdue e he
  obtain ⟨x, hrun, hx⟩ := Machine.Run.exists_of_exec (drainMachine Sample.pairs)
    (fun x a => DrainsAlone Sample.pairs 0 x.1 a) (Sample.backlogged, []) Sample.drain
    (fun x => x.2 = [2, 2, 0] && x.1.publishes.map (·.event) = [6, 5, 4, 3])
    (fun x a ha => by
      simp only [Sample.drain, Sample.callOfTwo, List.mem_append, List.mem_cons,
        List.not_mem_nil, or_false] at ha
      rcases ha with ((rfl | rfl | rfl | rfl | rfl | rfl | rfl | rfl) |
        (rfl | rfl | rfl | rfl | rfl | rfl | rfl | rfl)) | rfl <;> simp [DrainsAlone])
    (by decide)
  rw [Bool.and_eq_true, decide_eq_true_eq, decide_eq_true_eq] at hx
  obtain ⟨hreturned, hpublished⟩ := hx
  obtain ⟨keys, hdrain⟩ := drain_exactly_once hready
  obtain ⟨order, hdrained, -, hqueues⟩ :=
    (hdrain Sample.pairs Sample.drain x hrun).2.2 (by rw [hreturned]; rfl)
  refine ⟨x, order, hrun, hreturned, hpublished, hdrained, hqueues fun w b hmem => ?_⟩
  simp [Sample.drain, Sample.callOfTwo] at hmem

end NotificationSystem
