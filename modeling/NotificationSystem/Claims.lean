import NotificationSystem.Lib.History
import NotificationSystem.Traced

/-!
# The ledger of claims

A row of the outbox shows its last claim only, and a publisher does not remember when it made
its claims. The ledger is the history of a run that keeps them all, with what came of each:
whether its publish call raised, and whether its outcome was recorded.

* `claimMachine` — the system beside the ledger.
* `LedgerChange`, `ledgerChange_of_step` — what a step does to the events, the publishers and
  the ledger.
* `Booked`, `booked_reach` — the ledger agrees with the attempts of the events, the publishers'
  batches and the log of publish calls.
-/

namespace NotificationSystem

open Lib

variable {env : Deployment} {s s' : State} {a : Action} {p q : Nat} {e : Uuid}

/-- A claim of an event by a publisher, at the time that `locked_at` was set to. -/
structure Claim where
  event : Uuid
  publisher : Nat
  time : Time
  raised : Bool := false
  recorded : Bool := false
  deriving DecidableEq, Repr

/-- The claim is one of event `e` by publisher `p`. -/
def Claim.isOf (p : Nat) (e : Uuid) (c : Claim) : Bool := c.publisher = p && c.event = e

/-- All claims so far, the newest first. -/
abbrev Ledger := List Claim

namespace Ledger

/-- The newest claim of an event. -/
def latest (l : Ledger) (e : Uuid) : Option Claim := l.find? (·.event = e)

/-- The newest claim of an event by a publisher. -/
def latestOf (l : Ledger) (p : Nat) (e : Uuid) : Option Claim := l.find? (Claim.isOf p e)

def markRaised (l : Ledger) (p : Nat) (e : Uuid) : Ledger :=
  modifyFirst (Claim.isOf p e) (fun c => { c with raised := true }) l

def markRecorded (l : Ledger) (p : Nat) (e : Uuid) : Ledger :=
  modifyFirst (Claim.isOf p e) (fun c => { c with recorded := true }) l

/-- How often an event has been claimed. -/
def claimsOf (l : Ledger) (e : Uuid) : Nat := l.countP (·.event = e)

/-- How many of its claims have led to a publish call that raised. -/
def raisesOf (l : Ledger) (e : Uuid) : Nat := l.countP fun c => c.event = e && c.raised

end Ledger

/-- How many publish calls for an event have raised. -/
def State.raisesOf (s : State) (e : Uuid) : Nat :=
  s.publishes.countP fun c => c.event = e && c.raised

/-- What the ledger notes of a step. -/
def noteClaims (l : Ledger) (s : State) : Action → State → Ledger
  | .publisher p (.claim _ _ _ _), s' =>
    ((s'.publishers p).claims.map fun e => { event := e.id, publisher := p, time := s'.now }) ++ l
  | .publisher p (.publishRaises _ _), _ =>
    match (s.publishers p).row? with
    | some row => l.markRaised p row.id
    | none => l
  | .publisher p (.record _), _ =>
    match (s.publishers p).row? with
    | some row => l.markRecorded p row.id
    | none => l
  | _, _ => l

/-- The system beside the ledger of claims. -/
def claimMachine (env : Deployment) : Machine (State × Ledger) Action :=
  (machine env).withHistory [] noteClaims

/-! ## Looking claims up -/

section lookup

variable {l : Ledger} {f : Claim → Claim} {e' : Uuid}

theorem isOf_iff {c : Claim} : c.isOf p e = true ↔ c.publisher = p ∧ c.event = e := by
  simp [Claim.isOf]

theorem latestOf_event {c : Claim} (h : l.latestOf p e = some c) :
    c ∈ l ∧ c.publisher = p ∧ c.event = e :=
  ⟨List.mem_of_find?_eq_some h, isOf_iff.1 (List.find?_some h)⟩

theorem latest_event {c : Claim} (h : l.latest e = some c) : c ∈ l ∧ c.event = e :=
  ⟨List.mem_of_find?_eq_some h, by simpa using List.find?_some h⟩

theorem latestOf_modify_ne (hf : ∀ c, (f c).publisher = c.publisher ∧ (f c).event = c.event)
    (hne : q ≠ p ∨ e' ≠ e) :
    Ledger.latestOf (modifyFirst (Claim.isOf p e) f l) q e' = l.latestOf q e' := by
  refine find?_modifyFirst_of_disjoint (fun c => ?_) (fun c hc => ?_) l
  · simp [Claim.isOf, hf]
  · obtain ⟨rfl, rfl⟩ := isOf_iff.1 hc
    rw [Bool.eq_false_iff, Ne, isOf_iff]
    rintro ⟨rfl, rfl⟩
    exact hne.elim (· rfl) (· rfl)

theorem latest_modify (hf : ∀ c, (f c).publisher = c.publisher ∧ (f c).event = c.event) :
    Ledger.latest (modifyFirst (Claim.isOf p e) f l) e =
      (l.latest e).map fun c => if c.isOf p e then f c else c :=
  find?_modifyFirst (fun c => by simp [hf]) (fun c hc => by simp [(isOf_iff.1 hc).2]) l

theorem latest_modify_ne (hf : ∀ c, (f c).publisher = c.publisher ∧ (f c).event = c.event)
    (hne : e' ≠ e) : Ledger.latest (modifyFirst (Claim.isOf p e) f l) e' = l.latest e' := by
  refine find?_modifyFirst_of_disjoint (fun c => by simp [hf]) (fun c hc => ?_) l
  simpa [(isOf_iff.1 hc).2] using Ne.symm hne

theorem latestOf_markRaised_ne (hne : q ≠ p ∨ e' ≠ e) :
    (l.markRaised p e).latestOf q e' = l.latestOf q e' :=
  latestOf_modify_ne (fun _ => ⟨rfl, rfl⟩) hne

theorem latestOf_markRecorded_ne (hne : q ≠ p ∨ e' ≠ e) :
    (l.markRecorded p e).latestOf q e' = l.latestOf q e' :=
  latestOf_modify_ne (fun _ => ⟨rfl, rfl⟩) hne

theorem latestOf_markRaised {c : Claim} (h : l.latestOf p e = some c) :
    (l.markRaised p e).latestOf p e = some { c with raised := true } :=
  find?_modifyFirst_self (fun _ => rfl) h

section batch

variable {events : List OutboxEvent} {t : Time}

theorem latest_claimed (he : e ∈ events.map (·.id)) :
    Ledger.latest ((events.map fun e => { event := e.id, publisher := p, time := t }) ++ l) e =
      some { event := e, publisher := p, time := t } := by
  obtain ⟨f, hf, rfl⟩ := List.mem_map.1 he
  exact find?_map_append hf (by simp) (fun f' _ hid => by simpa using hid) l

theorem latest_claimed_ne (he : e ∉ events.map (·.id)) :
    Ledger.latest ((events.map fun e => { event := e.id, publisher := p, time := t }) ++ l) e =
      l.latest e := by
  refine find?_map_append_of_none (fun f hf => ?_) l
  exact decide_eq_false fun hid => he (hid ▸ List.mem_map_of_mem hf)

/-- The publisher that claims a batch has the newest claims of its own. -/
theorem latestOf_claimed (he : e ∈ events.map (·.id)) :
    Ledger.latestOf ((events.map fun e => { event := e.id, publisher := p, time := t }) ++ l) p e =
      some { event := e, publisher := p, time := t } := by
  obtain ⟨f, hf, rfl⟩ := List.mem_map.1 he
  unfold Ledger.latestOf
  exact find?_map_append (q := Claim.isOf p f.id) hf (isOf_iff.2 ⟨rfl, rfl⟩)
    (fun f' _ hof => by simpa [Claim.isOf] using hof) l

theorem latestOf_claimed_ne (hq : q ≠ p) :
    Ledger.latestOf ((events.map fun e => { event := e.id, publisher := p, time := t }) ++ l) q e =
      l.latestOf q e :=
  find?_map_append_of_none (fun f _ => by simp [Claim.isOf, Ne.symm hq]) l

end batch

end lookup

/-! ## The steps -/

/-- The rows of a batch, by id, whose outcome the publisher has yet to record. -/
def Publisher.unsettled : Publisher → List Uuid
  | .idle => []
  | .working todo => todo.map (·.id)
  | .loaded _ row todo | .published row todo | .raised row _ todo => row.id :: todo.map (·.id)

/-- What a step does to the events, the publishers and the ledger. -/
inductive LedgerChange (env : Deployment) (s : State) (l : Ledger) :
    Action → State → Ledger → Prop
  | quiet {a : Action} {s' : State} : s.now ≤ s'.now → s'.publishers = s.publishers →
      s'.publishes = s.publishes → (∀ e ∈ s'.store.outbox, e ∈ s.store.outbox ∨ e.New) →
      LedgerChange env s l a s' l
  | move {p : Nat} {b : PublisherAction} {s' : State} : s'.now = s.now → s'.store = s.store →
      (∀ q, q ≠ p → s'.publishers q = s.publishers q) →
      ((s'.publishers p).unsettled.Sublist (s.publishers p).unsettled) →
      ((s'.publishers p).claims.Sublist (s.publishers p).claims) →
      (∀ row error todo, s'.publishers p ≠ .raised row error todo) →
      (∀ e, s'.raisesOf e = s.raisesOf e) → LedgerChange env s l (.publisher p b) s' l
  | claim {p : Nat} {t₁ t₂ t₃ claimDeadline : Time} {locked : List Uuid} {s' : State} :
      s.publishers p = .idle → s.now ≤ t₁ → t₁ ≤ t₂ → t₂ ≤ t₃ →
      addSeconds t₂ (-env.outboxClaimTimeoutSeconds) = some claimDeadline →
      s' = { s.setPublisher p (.working ((selectClaimable env.toSettings s.store t₁ claimDeadline
          locked).map fun e => ⟨e.id, e.eventType, e.payload⟩)) with
        now := t₃
        store := claimRows s.store (selectClaimable env.toSettings s.store t₁ claimDeadline
          locked) t₃ } →
      LedgerChange env s l (.publisher p (.claim t₁ t₂ t₃ locked)) s'
        (((selectClaimable env.toSettings s.store t₁ claimDeadline locked).map fun e =>
          { event := e.id, publisher := p, time := t₃ }) ++ l)
  | raise {p : Nat} {c : ClaimedOutboxEvent} {row : OutboxEvent} {error : String}
      {accepted : Bool} {todo : List ClaimedOutboxEvent} : s.publishers p = .loaded c row todo →
      LedgerChange env s l (.publisher p (.publishRaises error accepted))
        { s.setPublisher p (.raised row error todo) with
          broker := afterRaise s.broker c accepted
          publishes := s.publishes ++ [⟨c.id, s.now, true⟩] }
        (l.markRaised p row.id)
  | recordPublished {p : Nat} {row : OutboxEvent} {todo : List ClaimedOutboxEvent} {t : Time} :
      s.publishers p = .published row todo → s.now ≤ t →
      LedgerChange env s l (.publisher p (.record t))
        { s.setPublisher p (.working todo) with
          now := t
          store := s.store.saveOutboxEvent row (row.markPublished t) }
        (l.markRecorded p row.id)
  | recordRaised {p : Nat} {row : OutboxEvent} {error : String} {todo : List ClaimedOutboxEvent}
      {t : Time} : s.publishers p = .raised row error todo → s.now ≤ t →
      LedgerChange env s l (.publisher p (.record t))
        { s.setPublisher p (.working todo) with
          now := t
          store := s.store.saveOutboxEvent row (row.markPublishFailed env.toSettings error) }
        (l.markRecorded p row.id)

theorem events_of_other (hr : Referenced s) (h : step env s a = some s')
    (ha : ∀ p b, a ≠ .publisher p b) :
    ∀ e ∈ s'.store.outbox, e ∈ s.store.outbox ∨ e.New := by
  intro e he
  cases change_of_step h with
  | quiet _ _ _ ho => exact .inl (ho ▸ he)
  | call => exact .inl he
  | reserve _ _ _ _ _ hres =>
    rw [afterReserve_store] at he
    exact reserved_events hres rfl e he
  | apply hw _ _ _ happ =>
    exact applied_events happ (hr.flights _ _ (congrArg Worker.flight? hw)).1 e he
  | claim | recordPublished | recordRaised => exact absurd rfl (ha _ _)
  | commit _ _ _ hcom =>
    refine (commitBulk_event hcom he).imp_right ?_
    rintro ⟨i, r, -, rfl⟩
    exact ⟨rfl, rfl, rfl⟩

theorem move_of_setPublisher {l : Ledger} {b : PublisherAction} {x : Publisher}
    (hx : x.unsettled.Sublist (s.publishers p).unsettled)
    (hc : x.claims.Sublist (s.publishers p).claims)
    (hr : ∀ row error todo, x ≠ .raised row error todo) :
    LedgerChange env s l (.publisher p b) (s.setPublisher p x) l := by
  refine .move rfl rfl (fun q hq => ?_) ?_ ?_ ?_ fun _ => rfl
  · simp [State.setPublisher, hq]
  · simpa [State.setPublisher] using hx
  · simpa [State.setPublisher] using hc
  · simpa [State.setPublisher] using hr

/-- What a claim does, with the deadline that it computes. -/
theorem claim_cases {t₁ t₂ t₃ : Time} {locked : List Uuid}
    (h : publisherStep env s p (.claim t₁ t₂ t₃ locked) = some s') :
    s.publishers p = .idle ∧ (s.now ≤ t₁ ∧ t₁ ≤ t₂ ∧ t₂ ≤ t₃) ∧ ∃ claimDeadline,
      addSeconds t₂ (-env.outboxClaimTimeoutSeconds) = some claimDeadline ∧
        s' = { s.setPublisher p (.working ((selectClaimable env.toSettings s.store t₁ claimDeadline
            locked).map fun e => ⟨e.id, e.eventType, e.payload⟩)) with
          now := t₃
          store := claimRows s.store (selectClaimable env.toSettings s.store t₁ claimDeadline
            locked) t₃ } := by
  cases publisherStep_inv h with
  | claim hp h₁ h₂ h₃ hd => exact ⟨hp, ⟨h₁, h₂, h₃⟩, _, hd, rfl⟩

theorem publisherStep_ledger {l : Ledger} {b : PublisherAction}
    (h : publisherStep env s p b = some s') :
    LedgerChange env s l (.publisher p b) s' (noteClaims l s (.publisher p b) s') := by
  cases publisherStep_inv h with
  | @claim t₁ t₂ t₃ claimDeadline locked hp h₁ h₂ h₃ hd =>
    have hchange :=
      @LedgerChange.claim env s l p t₁ t₂ t₃ claimDeadline locked _ hp h₁ h₂ h₃ hd rfl
    simpa [noteClaims, State.setPublisher, Publisher.claims, Function.comp_def] using hchange
  | skip hp =>
    refine move_of_setPublisher ?_ ?_ ?_ <;> simp [hp, Publisher.unsettled, Publisher.claims]
  | load hp hrow =>
    refine move_of_setPublisher ?_ ?_ ?_ <;>
      simp [hp, Publisher.unsettled, Publisher.claims, Table.get_key hrow]
  | publish hp =>
    refine .move rfl rfl (fun q hq => ?_) ?_ ?_ ?_ fun e => ?_
    · simp [State.setPublisher, hq]
    · simp [State.setPublisher, hp, Publisher.unsettled]
    · simp [State.setPublisher, hp, Publisher.claims]
    · simp [State.setPublisher]
    · simp [State.raisesOf]
  | @publishRaises c row todo error accepted hp =>
    simpa [noteClaims, hp, Publisher.row?] using
      @LedgerChange.raise env s l p c row error accepted todo hp
  | recordPublished hp ht =>
    simpa [noteClaims, hp, Publisher.row?] using LedgerChange.recordPublished (l := l) hp ht
  | recordRaised hp ht =>
    simpa [noteClaims, hp, Publisher.row?] using LedgerChange.recordRaised (l := l) hp ht
  | done | crash =>
    refine move_of_setPublisher ?_ ?_ ?_ <;> simp [Publisher.unsettled, Publisher.claims]

theorem ledgerChange_of_step {l : Ledger} (hr : Referenced s) (h : step env s a = some s') :
    LedgerChange env s l a s' (noteClaims l s a s') := by
  have hnow := (change_of_step h).now_le
  rcases step_party h with ⟨w, b, rfl, hw⟩ | ⟨p, b, rfl, hp⟩ | hf
  · have hframe := workerStep_frame hw
    exact .quiet hnow hframe.publishers hframe.publishes (events_of_other hr h nofun)
  · exact publisherStep_ledger hp
  · cases a with
    | publisher p b => exact publisherStep_ledger h
    | worker | tick | request | cleaner | redisExpire =>
      exact .quiet hnow hf.publishers hf.publishes (events_of_other hr h nofun)

/-! ## The ledger agrees with the system -/

/-- What the ledger says of the batch that a publisher works on. -/
structure Publisher.Booked (l : Ledger) (p : Nat) (x : Publisher) : Prop where
  nodup : x.unsettled.Nodup
  unsettled : ∀ e ∈ x.unsettled, ∃ c, l.latestOf p e = some c ∧ c.recorded = false
  uncalled : ∀ k ∈ x.claims, ∃ c, l.latestOf p k.id = some c ∧ c.raised = false
  raised : ∀ row error todo, x = .raised row error todo →
    ∃ c, l.latestOf p row.id = some c ∧ c.raised = true

structure Booked (x : State × Ledger) : Prop where
  stored : ∀ c ∈ x.2, ∃ e ∈ x.1.store.outbox, e.id = c.event
  attempts : ∀ e ∈ x.1.store.outbox, e.attempts = x.2.claimsOf e.id
  times : ∀ c ∈ x.2, c.time ≤ x.1.now
  batches : ∀ p, (x.1.publishers p).Booked x.2 p
  raises : ∀ e, x.1.raisesOf e = x.2.raisesOf e
  failed : ∀ e ∈ x.1.store.outbox, e.status = .failed → 0 < x.2.raisesOf e.id

theorem nodup_selectClaimable (cfg : Settings) (st : Store) (now claimDeadline : Time)
    (locked : List Uuid) :
    ((selectClaimable cfg st now claimDeadline locked).map (·.id)).Nodup := by
  have hsorted := ((List.perm_insertionSort OutboxEvent.claimsBefore
    (st.outbox.rows.filter fun e => e.claimable now claimDeadline && e.id ∉ locked)).map
      (·.id)).nodup_iff.2 (st.outbox.nodup.sublist (List.filter_sublist.map OutboxEvent.id))
  exact hsorted.sublist ((List.take_sublist _ _).map _)

section batches

variable {l l' : Ledger} {x y : Publisher}

theorem booked_idle : Publisher.idle.Booked l p where
  nodup := List.nodup_nil
  unsettled _ h := by cases h
  uncalled _ h := by cases h
  raised _ _ _ h := by cases h

theorem booked_sublist (h : x.Booked l p) (hu : y.unsettled.Sublist x.unsettled)
    (hc : y.claims.Sublist x.claims) (hr : ∀ row error todo, y ≠ .raised row error todo) :
    y.Booked l p where
  nodup := h.nodup.sublist hu
  unsettled e he := h.unsettled e (hu.subset he)
  uncalled k hk := h.uncalled k (hc.subset hk)
  raised row error todo hy := absurd hy (hr row error todo)

theorem booked_of_latestOf (h : x.Booked l p) (heq : ∀ e, l'.latestOf p e = l.latestOf p e) :
    x.Booked l' p where
  nodup := h.nodup
  unsettled e he := by rw [heq]; exact h.unsettled e he
  uncalled k hk := by rw [heq]; exact h.uncalled k hk
  raised row error todo hx := by rw [heq]; exact h.raised row error todo hx

theorem booked_claimed {events : List OutboxEvent} {t : Time} (hnd : (events.map (·.id)).Nodup) :
    (Publisher.working (events.map fun e => ⟨e.id, e.eventType, e.payload⟩)).Booked
      ((events.map fun e => { event := e.id, publisher := p, time := t }) ++ l) p := by
  refine ⟨?_, fun e he => ?_, fun k hk => ?_, fun _ _ _ hx => by cases hx⟩
  · simpa [Publisher.unsettled, Function.comp_def] using hnd
  · exact ⟨_, latestOf_claimed (by simpa [Publisher.unsettled, Function.comp_def] using he), rfl⟩
  · obtain ⟨f, hf, rfl⟩ := List.mem_map.1 hk
    exact ⟨_, latestOf_claimed (List.mem_map_of_mem hf), rfl⟩

theorem booked_raised {row : OutboxEvent} {c : ClaimedOutboxEvent} {error : String}
    {todo : List ClaimedOutboxEvent} (h : (Publisher.loaded c row todo).Booked l p) :
    (Publisher.raised row error todo).Booked (l.markRaised p row.id) p := by
  obtain ⟨hnotin, -⟩ := List.nodup_cons.1 h.nodup
  have other {e : Uuid} (he : e ∈ todo.map (·.id)) :
      (l.markRaised p row.id).latestOf p e = l.latestOf p e :=
    latestOf_markRaised_ne (.inr fun heq => hnotin (heq ▸ he))
  refine ⟨h.nodup, fun e he => ?_, fun k hk => ?_, ?_⟩
  · obtain ⟨d, hd, hrec⟩ := h.unsettled e he
    rcases List.mem_cons.1 he with rfl | he
    · exact ⟨_, latestOf_markRaised hd, hrec⟩
    · exact ⟨d, (other he).trans hd, hrec⟩
  · rw [other (List.mem_map_of_mem hk)]
    exact h.uncalled k (List.mem_cons_of_mem _ hk)
  · rintro _ _ _ ⟨⟩
    obtain ⟨d, hd, -⟩ := h.unsettled row.id List.mem_cons_self
    exact ⟨_, latestOf_markRaised hd, rfl⟩

theorem booked_recorded {row : OutboxEvent} {todo : List ClaimedOutboxEvent} (h : x.Booked l p)
    (hu : x.unsettled = row.id :: todo.map (·.id)) (hc : x.claims = todo) :
    (Publisher.working todo).Booked (l.markRecorded p row.id) p := by
  have hnd := h.nodup
  rw [hu] at hnd
  obtain ⟨hnotin, htodo⟩ := List.nodup_cons.1 hnd
  have other {e : Uuid} (he : e ∈ todo.map (·.id)) :
      (l.markRecorded p row.id).latestOf p e = l.latestOf p e :=
    latestOf_markRecorded_ne (.inr fun heq => hnotin (heq ▸ he))
  refine ⟨htodo, fun e he => ?_, fun k hk => ?_, fun _ _ _ hx => by cases hx⟩
  · rw [other he]
    exact h.unsettled e (hu ▸ List.mem_cons_of_mem _ he)
  · rw [other (List.mem_map_of_mem hk)]
    exact h.uncalled k (hc ▸ hk)

end batches

theorem batches_step {l l' : Ledger} (h : LedgerChange env s l a s' l')
    (hb : ∀ p, (s.publishers p).Booked l p) (q : Nat) : (s'.publishers q).Booked l' q := by
  -- the claims that a step of publisher `p` makes or marks are claims of `p`
  have others {p : Nat} {l' : Ledger} (hq : q ≠ p)
      (hl : ∀ e, l'.latestOf q e = l.latestOf q e) {x : Publisher} :
      (Function.update s.publishers p x q).Booked l' q := by
    rw [Function.update_of_ne hq]
    exact booked_of_latestOf (hb q) hl
  cases h with
  | quiet _ hp => exact hp ▸ hb q
  | @move p b _ _ _ hothers hu hc hr =>
    by_cases hq : q = p
    · subst hq
      exact booked_sublist (hb q) hu hc hr
    · exact hothers q hq ▸ hb q
  | @claim p t₁ t₂ t₃ claimDeadline locked _ _ _ _ _ _ heq =>
    subst heq
    by_cases hq : q = p
    · subst hq
      simp only [State.setPublisher, Function.update_self]
      exact booked_claimed (nodup_selectClaimable _ _ _ _ _)
    · exact others hq fun e => latestOf_claimed_ne hq
  | @raise p c row error accepted todo hp =>
    by_cases hq : q = p
    · subst hq
      simp only [State.setPublisher, Function.update_self]
      exact booked_raised (hp ▸ hb q)
    · exact others hq fun e => latestOf_markRaised_ne (.inl hq)
  | @recordPublished p row todo t hp | @recordRaised p row error todo t hp =>
    by_cases hq : q = p
    · subst hq
      simp only [State.setPublisher, Function.update_self]
      exact booked_recorded (hb q) (by rw [hp]; rfl) (by rw [hp]; rfl)
    · exact others hq fun e => latestOf_markRecorded_ne (.inl hq)

section counts

variable {l l' : Ledger} {events : List OutboxEvent} {t : Time}

theorem claimsOf_append (hnd : (events.map (·.id)).Nodup) :
    Ledger.claimsOf ((events.map fun e => { event := e.id, publisher := p, time := t }) ++ l) e =
      l.claimsOf e + if e ∈ events.map (·.id) then 1 else 0 := by
  have hcount : (events.map fun e => ({ event := e.id, publisher := p, time := t } : Claim)).countP
      (·.event = e) = (events.map (·.id)).count e := by
    rw [List.count, List.countP_map, List.countP_map]
    exact List.countP_congr fun f _ => by simp
  rw [Ledger.claimsOf, List.countP_append, hcount, hnd.count]
  exact Nat.add_comm _ _

theorem raisesOf_append :
    Ledger.raisesOf ((events.map fun e => { event := e.id, publisher := p, time := t }) ++ l) e =
      l.raisesOf e := by
  rw [Ledger.raisesOf, List.countP_append, List.countP_eq_zero.2, Nat.zero_add]
  · rfl
  · intro c hc
    obtain ⟨f, -, rfl⟩ := List.mem_map.1 hc
    simp

theorem raisesOf_markRaised {c : Claim} (h : l.latestOf p e = some c) (hc : c.raised = false)
    (e' : Uuid) : (l.markRaised p e).raisesOf e' = l.raisesOf e' + if e' = e then 1 else 0 := by
  obtain ⟨-, -, rfl⟩ := latestOf_event h
  split
  · next heq =>
    subst heq
    exact countP_modifyFirst h (by simp [hc]) (by simp)
  · next hne =>
    refine countP_modifyFirst_of_disjoint (fun d hd => ?_) l
    simp [(isOf_iff.1 hd).2, Ne.symm hne]

theorem raisesOf_markRecorded (e' : Uuid) :
    (l.markRecorded p e).raisesOf e' = l.raisesOf e' := by
  unfold Ledger.raisesOf Ledger.markRecorded
  exact countP_modifyFirst_same (by simp) l

theorem claimsOf_markRaised (e' : Uuid) : (l.markRaised p e).claimsOf e' = l.claimsOf e' := by
  unfold Ledger.claimsOf Ledger.markRaised
  exact countP_modifyFirst_same (by simp) l

theorem claimsOf_markRecorded (e' : Uuid) : (l.markRecorded p e).claimsOf e' = l.claimsOf e' := by
  unfold Ledger.claimsOf Ledger.markRecorded
  exact countP_modifyFirst_same (by simp) l

/-- The ledger and the log count the same calls that raise. -/
theorem raises_step (ht : Traced s) (hb : ∀ p, (s.publishers p).Booked l p)
    (h : LedgerChange env s l a s' l') (e : Uuid) :
    ∃ k, s'.raisesOf e = s.raisesOf e + k ∧ l'.raisesOf e = l.raisesOf e + k := by
  cases h with
  | quiet _ _ hp => exact ⟨0, by rw [State.raisesOf, hp]; rfl, rfl⟩
  | move _ _ _ _ _ _ hr => exact ⟨0, hr e, rfl⟩
  | claim _ _ _ _ _ heq =>
    subst heq
    exact ⟨0, rfl, raisesOf_append⟩
  | @raise p c row error accepted todo hp =>
    have hid := ht.loaded p c row todo hp
    have hbook := hb p
    rw [hp] at hbook
    obtain ⟨k, hk, hfalse⟩ := hbook.uncalled c List.mem_cons_self
    refine ⟨if e = row.id then 1 else 0, ?_, raisesOf_markRaised (hid ▸ hk) hfalse e⟩
    rw [State.raisesOf, List.countP_append]
    by_cases he : e = row.id
    · subst he
      simp [State.raisesOf, hid]
    · have he' : ¬ c.id = e := fun h => he (by rw [hid, h])
      simp [State.raisesOf, he, he']
  | recordPublished | recordRaised => exact ⟨0, rfl, raisesOf_markRecorded e⟩

end counts

theorem attempts_step {l l' : Ledger} (hext : s.store.Extends s'.store)
    (h : LedgerChange env s l a s' l') (hs : ∀ c ∈ l, ∃ e ∈ s.store.outbox, e.id = c.event)
    (ha : ∀ e ∈ s.store.outbox, e.attempts = l.claimsOf e.id) :
    ∀ e ∈ s'.store.outbox, e.attempts = l'.claimsOf e.id := by
  intro e he
  cases h with
  | quiet _ _ _ hevents =>
    rcases hevents e he with hold | hnew
    · exact ha e hold
    · -- an event that has been claimed was there before, with its attempts
      by_contra hne
      rw [hnew.attempts] at hne
      obtain ⟨c, hc, hce⟩ := List.countP_pos_iff.1 (Nat.pos_of_ne_zero (Ne.symm hne))
      obtain ⟨f, hf, hfid⟩ := hs c hc
      obtain ⟨f', hf', hsame, hle⟩ := hext.outbox hf
      have hid : f.id = e.id := hfid.trans (by simpa using hce)
      obtain rfl := Table.eq_of_key hf' he ((asWritten_id hsame).trans hid)
      rw [hnew.attempts, ha f hf, hid] at hle
      exact hne (Nat.le_zero.1 hle).symm
  | move _ hst => exact ha e (hst ▸ he)
  | claim _ _ _ _ _ heq =>
    subst heq
    rw [claimsOf_append (nodup_selectClaimable _ _ _ _ _)]
    obtain ⟨f, hf, rfl⟩ := mem_claimRows.1 he
    split
    · next hsel =>
      rw [OutboxEvent.claimed_id, if_pos hsel]
      exact congrArg (· + 1) (ha f hf)
    · exact ha f hf
  | raise =>
    rw [claimsOf_markRaised]
    exact ha e he
  | recordPublished | recordRaised =>
    rw [claimsOf_markRecorded]
    obtain ⟨f, hf, rfl⟩ := mem_saveOutboxEvent.1 he
    split
    · exact (writeBack_attempts _ _ f (by rfl)).trans (ha f hf)
    · exact ha f hf

/-- A claim in the ledger was there before, up to its marks, or it has just been made. -/
theorem mem_ledger {l l' : Ledger} (h : LedgerChange env s l a s' l') {c : Claim} (hc : c ∈ l') :
    (∃ d ∈ l, d.event = c.event ∧ d.time = c.time) ∨
      c.time = s'.now ∧ ∃ e ∈ s.store.outbox, e.id = c.event := by
  have marked {p : Nat} {e : Uuid} {f : Claim → Claim}
      (hf : ∀ c, (f c).event = c.event ∧ (f c).time = c.time)
      (hc : c ∈ modifyFirst (Claim.isOf p e) f l) :
      ∃ d ∈ l, d.event = c.event ∧ d.time = c.time := by
    rcases mem_modifyFirst hc with hc | ⟨d, hd, -, rfl⟩
    · exact ⟨c, hc, rfl, rfl⟩
    · exact ⟨d, hd, (hf d).1.symm, (hf d).2.symm⟩
  cases h with
  | quiet | move => exact .inl ⟨c, hc, rfl, rfl⟩
  | claim _ _ _ _ _ heq =>
    subst heq
    rcases List.mem_append.1 hc with hc | hc
    · obtain ⟨e, he, rfl⟩ := List.mem_map.1 hc
      exact .inr ⟨rfl, e, (mem_selectClaimable he).1, rfl⟩
    · exact .inl ⟨c, hc, rfl, rfl⟩
  | raise | recordPublished | recordRaised => exact .inl (marked (by simp) hc)

/-- An event fails when a publish call for it has raised. -/
theorem failed_step {l l' : Ledger} (hb : ∀ p, (s.publishers p).Booked l p)
    (h : LedgerChange env s l a s' l') (hmono : ∀ e, l.raisesOf e ≤ l'.raisesOf e)
    (hs : ∀ e ∈ s.store.outbox, e.status = .failed → 0 < l.raisesOf e.id) :
    ∀ e ∈ s'.store.outbox, e.status = .failed → 0 < l'.raisesOf e.id := by
  intro e he hfailed
  have old {f : OutboxEvent} (hf : f ∈ s.store.outbox) (hstatus : f.status = .failed) :
      0 < l'.raisesOf f.id := (hs f hf hstatus).trans_le (hmono f.id)
  cases h with
  | quiet _ _ _ hevents =>
    rcases hevents e he with he | hnew
    · exact old he hfailed
    · rw [hnew.pending] at hfailed
      cases hfailed
  | move _ hst => exact old (hst ▸ he) hfailed
  | raise => exact old he hfailed
  | claim _ _ _ _ _ heq =>
    subst heq
    obtain ⟨f, hf, rfl⟩ := mem_claimRows.1 he
    split at hfailed
    · cases hfailed
    · next hsel =>
      rw [if_neg hsel]
      exact old hf hfailed
  | @recordPublished p row =>
    obtain ⟨f, hf, rfl⟩ := mem_saveOutboxEvent.1 he
    split at hfailed
    · next hid =>
      rw [if_pos hid, OutboxEvent.writeBack_id]
      rcases writeBack_status row (row.markPublished _) f with h | h
      · exact old hf (h.symm.trans hfailed)
      · cases h.symm.trans hfailed
    · next hid =>
      rw [if_neg hid]
      exact old hf hfailed
  | @recordRaised p row error todo t hp =>
    obtain ⟨f, hf, rfl⟩ := mem_saveOutboxEvent.1 he
    split at hfailed
    · next hid =>
      rw [if_pos hid, OutboxEvent.writeBack_id, hid]
      obtain ⟨c, hc, hraised⟩ := (hb p).raised row error todo hp
      obtain ⟨hmem, -, hevent⟩ := latestOf_event hc
      have hpos : 0 < l.raisesOf row.id :=
        List.countP_pos_iff.2 ⟨c, hmem, by simp [hevent, hraised]⟩
      exact hpos.trans_le (hmono row.id)
    · next hid =>
      rw [if_neg hid]
      exact old hf hfailed

theorem booked_step {l : Ledger} (hr : Referenced s) (ht : Traced s) (hb : Booked (s, l))
    (h : step env s a = some s') : Booked (s', noteClaims l s a s') := by
  have hchange := ledgerChange_of_step (l := l) hr h
  have hext := (change_of_step h).extends
  have hnow := (change_of_step h).now_le
  have hraises := raises_step ht hb.batches hchange
  have has {e : Uuid} (he : ∃ f ∈ s.store.outbox, f.id = e) : ∃ f ∈ s'.store.outbox, f.id = e := by
    obtain ⟨f, hf, rfl⟩ := he
    obtain ⟨f', hf', hsame, -⟩ := hext.outbox hf
    exact ⟨f', hf', asWritten_id hsame⟩
  refine ⟨fun c hc => ?_, attempts_step hext hchange hb.stored hb.attempts, fun c hc => ?_,
    batches_step hchange hb.batches, fun e => ?_, failed_step hb.batches hchange (fun e => ?_)
      hb.failed⟩
  · rcases mem_ledger hchange hc with ⟨d, hd, hevent, -⟩ | ⟨-, hstored⟩
    · exact has (hevent ▸ hb.stored d hd)
    · exact has hstored
  · rcases mem_ledger hchange hc with ⟨d, hd, -, htime⟩ | ⟨htime, -⟩
    · exact htime ▸ (hb.times d hd).trans hnow
    · exact htime.le
  · obtain ⟨k, h₁, h₂⟩ := hraises e
    rw [h₁, h₂, hb.raises e]
  · obtain ⟨k, -, h₂⟩ := hraises e
    exact h₂ ▸ Nat.le_add_right _ _

theorem booked_initial (now : Time) : Booked (State.initial now, []) where
  stored _ h := by cases h
  attempts _ h := absurd h Table.not_mem_empty
  times _ h := by cases h
  batches _ := booked_idle
  raises _ := rfl
  failed _ h := absurd h Table.not_mem_empty

/-- **The ledger is right** about every run. -/
theorem booked_reach {okh : State × Ledger → Action → Prop} {x : State × Ledger}
    (h : (claimMachine env).Reach okh x) : Booked x := by
  refine Machine.Reach.induct_history ?_ (fun s l a t hreach hb _ hstep => ?_) h
  · rintro _ ⟨now, rfl⟩
    exact booked_initial now
  · exact booked_step (referenced_reach hreach) (traced_reach hreach) hb hstep

end NotificationSystem
