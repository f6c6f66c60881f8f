import NotificationSystem.Messages

/-!
# Where messages come from

Every message, every publisher's claim and every row a publisher has loaded stems from an
outbox event that was claimed when it was due. An event that is not yet due is therefore
pending, and nobody has heard of it.

* `Traced`, `traced_reach` — the invariant.
* `unclaimed_of_future` — the consequence for an event that is not yet due.
-/

namespace NotificationSystem

open Lib

variable {env : Deployment} {s s' : State} {a : Action} {m : Message}

/-- The message announces an event that has been claimed. -/
def Store.Announced (st : Store) (m : Message) : Prop :=
  ∃ e ∈ st.outbox, e.id = m.event ∧ e.eventType = m.eventType ∧ e.payload = m.payload ∧
    0 < e.attempts

/-- The row was loaded from the table after a claim. -/
def Store.Loaded (st : Store) (row : OutboxEvent) : Prop :=
  0 < row.attempts ∧ ∃ e ∈ st.outbox, e.asWritten = row.asWritten ∧ row.attempts ≤ e.attempts

theorem Store.Extends.announced {st st' : Store} (h : st.Extends st') (hm : st.Announced m) :
    st'.Announced m := by
  obtain ⟨e, he, hid, htype, hpayload, hpos⟩ := hm
  obtain ⟨e', he', hsame, hle⟩ := h.outbox he
  exact ⟨e', he', (asWritten_id hsame).trans hid, (asWritten_eventType hsame).trans htype,
    (asWritten_payload hsame).trans hpayload, hpos.trans_le hle⟩

theorem Store.Extends.loaded {st st' : Store} {row : OutboxEvent} (h : st.Extends st')
    (hr : st.Loaded row) : st'.Loaded row := by
  obtain ⟨hpos, e, he, hsame, hle⟩ := hr
  obtain ⟨e', he', hsame', hle'⟩ := h.outbox he
  exact ⟨hpos, e', he', hsame'.trans hsame, hle.trans hle'⟩

structure Traced (s : State) : Prop where
  aggregate : ∀ e ∈ s.store.outbox, e.payload.notificationId = e.aggregateId
  due : ∀ e ∈ s.store.outbox, 0 < e.attempts → ∀ t, e.availableAt = some t → t ≤ s.now
  unclaimed : ∀ e ∈ s.store.outbox, e.attempts = 0 → e.status = .pending
  claims : ∀ p, ∀ c ∈ (s.publishers p).claims, s.store.Announced c.message
  rows : ∀ p row, (s.publishers p).row? = some row → s.store.Loaded row
  loaded : ∀ p e row todo, s.publishers p = .loaded e row todo → row.id = e.id
  known : ∀ m, s.Known m → s.store.Announced m
  publishes : ∀ c ∈ s.publishes, ∃ m, m.event = c.event ∧ s.store.Announced m

theorem traced_initial (now : Time) : Traced (State.initial now) where
  aggregate _ h := absurd h Table.not_mem_empty
  due _ h := absurd h Table.not_mem_empty
  unclaimed _ h := absurd h Table.not_mem_empty
  claims _ _ h := by cases h
  rows _ _ h := by cases h
  loaded _ _ _ _ h := by cases h
  known _ h := by
    rcases h with ⟨_, h⟩ | ⟨_, _, h, -⟩ | h <;> cases h
  publishes _ h := by cases h

/-- An event that is not yet due is pending, and no message announces it. -/
theorem unclaimed_of_future (hs : Traced s) {e : OutboxEvent} {t : Time} (he : e ∈ s.store.outbox)
    (hat : e.availableAt = some t) (ht : s.now < t) :
    e.status = .pending ∧ ∀ m, s.store.Announced m → m.event ≠ e.id := by
  have hzero : e.attempts = 0 := by
    by_contra hne
    exact absurd ht (not_lt.2 (hs.due e he (Nat.pos_of_ne_zero hne) t hat))
  refine ⟨hs.unclaimed e he hzero, ?_⟩
  rintro m ⟨f, hf, hid, -, -, hpos⟩ heq
  obtain rfl := Table.eq_of_key hf he (hid.trans heq)
  omega

/-! ## The events -/

/-- An event as a transaction adds it. -/
structure OutboxEvent.New (e : OutboxEvent) : Prop where
  pending : e.status = .pending
  attempts : e.attempts = 0
  aggregate : e.payload.notificationId = e.aggregateId

theorem reserved_events {cfg : Settings} {st st' : Store} {id : Uuid} {payload : Payload}
    {t₁ t₂ t₃ : Time} {ids : EventIds} {out : Option Notification}
    (h : Reserved cfg st id payload t₁ t₂ t₃ ids st' out) (hid : payload.notificationId = id) :
    ∀ e ∈ st'.outbox, e ∈ st.outbox ∨ e.New := by
  intro e he
  refine (reserved_adds h he).imp_right fun hadds => ?_
  cases hadds with
  | deferred hget => exact ⟨rfl, rfl, hid.trans (Table.get_key hget).symm⟩
  | refused => exact ⟨rfl, rfl, rfl⟩

theorem applied_events {cfg : Settings} {st st' : Store} {id : Uuid} {payload : Payload}
    {loaded : Notification} {result : ProviderResult} {t₁ t₂ : Time} {ids : EventIds}
    (h : Applied cfg st id payload loaded result t₁ t₂ ids st')
    (hid : loaded.id = payload.notificationId) : ∀ e ∈ st'.outbox, e ∈ st.outbox ∨ e.New := by
  intro e he
  refine (applied_adds h he).imp_right fun hadds => ?_
  cases hadds with
  | retried => exact ⟨rfl, rfl, hid.symm⟩
  | dropped => exact ⟨rfl, rfl, rfl⟩

theorem mem_selectClaimable {cfg : Settings} {st : Store} {now claimDeadline : Time}
    {locked : List Uuid} {e : OutboxEvent}
    (h : e ∈ selectClaimable cfg st now claimDeadline locked) :
    e ∈ st.outbox ∧ e.claimable now claimDeadline = true := by
  have h := List.mem_of_mem_take h
  rw [List.mem_insertionSort, List.mem_filter, Bool.and_eq_true] at h
  exact ⟨h.1, h.2.1⟩

/-- Where an event that a step leaves comes from. -/
inductive EventChange (env : Deployment) (s s' : State) : OutboxEvent → Prop
  | kept {e : OutboxEvent} : e ∈ s.store.outbox → EventChange env s s' e
  | new {e : OutboxEvent} : e.New → EventChange env s s' e
  | claimed {e : OutboxEvent} {now claimDeadline t : Time} : e ∈ s.store.outbox → s.now ≤ now →
      now ≤ s'.now → e.claimable now claimDeadline = true → EventChange env s s' (e.claimed t)
  | published {e row : OutboxEvent} {p : Nat} {t : Time} {todo : List ClaimedOutboxEvent} :
      e ∈ s.store.outbox → s.publishers p = .published row todo → e.id = row.id →
      EventChange env s s' (OutboxEvent.writeBack row (row.markPublished t) e)
  | raised {e row : OutboxEvent} {p : Nat} {error : String} {todo : List ClaimedOutboxEvent} :
      e ∈ s.store.outbox → s.publishers p = .raised row error todo → e.id = row.id →
      EventChange env s s'
        (OutboxEvent.writeBack row (row.markPublishFailed env.toSettings error) e)

theorem event_of_change (hr : Referenced s) (h : Change env s a s') {e : OutboxEvent}
    (he : e ∈ s'.store.outbox) : EventChange env s s' e := by
  cases h with
  | quiet _ _ _ ho => exact .kept (ho ▸ he)
  | call => exact .kept he
  | reserve _ _ _ _ _ hres =>
    rw [afterReserve_store] at he
    exact (reserved_events hres rfl e he).elim .kept .new
  | apply hw _ _ _ happ =>
    have hid := (hr.flights _ _ (congrArg Worker.flight? hw)).1
    exact (applied_events happ hid e he).elim .kept .new
  | claim _ h₁ h₂ h₃ heq =>
    subst heq
    obtain ⟨f, hf, rfl⟩ := mem_claimRows.1 he
    split
    · next hsel =>
      obtain ⟨g, hg, hid⟩ := List.mem_map.1 hsel
      obtain ⟨hg, hclaimable⟩ := mem_selectClaimable hg
      obtain rfl : g = f := Table.eq_of_key hg hf hid
      exact .claimed hg h₁ (h₂.trans h₃) hclaimable
    · exact .kept hf
  | recordPublished hp =>
    obtain ⟨f, hf, rfl⟩ := mem_saveOutboxEvent.1 he
    split
    · next hid => exact .published hf hp hid
    · exact .kept hf
  | recordRaised hp =>
    obtain ⟨f, hf, rfl⟩ := mem_saveOutboxEvent.1 he
    split
    · next hid => exact .raised hf hp hid
    · exact .kept hf
  | commit _ _ _ hcom =>
    rcases commitBulk_event hcom he with he | ⟨i, r, -, rfl⟩
    · exact .kept he
    · exact .new ⟨rfl, rfl, rfl⟩

/-- What holds of every event in every reachable state. -/
def EventsTraced (s : State) : Prop :=
  ∀ e ∈ s.store.outbox, e.payload.notificationId = e.aggregateId ∧
    (0 < e.attempts → ∀ t, e.availableAt = some t → t ≤ s.now) ∧
    (e.attempts = 0 → e.status = .pending)

/-- A claimed event was due at the reading of the claim, or it had been claimed before. -/
theorem due_of_claimable (hs : EventsTraced s) {e : OutboxEvent} (he : e ∈ s.store.outbox)
    {now claimDeadline t : Time} (hnow : s.now ≤ now) (hc : e.claimable now claimDeadline = true)
    (hat : e.availableAt = some t) : t ≤ now := by
  simp only [OutboxEvent.claimable, hat, Option.isNone_some, Option.any_some, Bool.false_or,
    Bool.or_eq_true, Bool.and_eq_true, decide_eq_true_eq] at hc
  rcases hc with ⟨-, hle⟩ | ⟨hstatus, -⟩
  · exact hle
  · obtain ⟨-, hdue, hpending⟩ := hs e he
    have hpos : 0 < e.attempts := by
      by_contra hzero
      rw [hpending (by omega)] at hstatus
      cases hstatus
    exact (hdue hpos t hat).trans hnow

theorem eventsTraced_step (hr : Referenced s) (hrows : ∀ p row, (s.publishers p).row? = some row →
    s.store.Loaded row) (hs : EventsTraced s) (h : Change env s a s') : EventsTraced s' := by
  have hnow := h.now_le
  -- an event that a publisher records has been claimed
  have recorded {e row updated : OutboxEvent} (he : e ∈ s.store.outbox)
      (hrow : s.store.Loaded row) (hid : e.id = row.id) (hatt : updated.attempts = row.attempts) :
      e.payload.notificationId = e.aggregateId ∧
        (0 < (OutboxEvent.writeBack row updated e).attempts →
          ∀ t, e.availableAt = some t → t ≤ s'.now) ∧
        ((OutboxEvent.writeBack row updated e).attempts = 0 →
          (OutboxEvent.writeBack row updated e).status = .pending) := by
    obtain ⟨hpos, g, hg, hsame, hle⟩ := hrow
    obtain rfl : e = g := Table.eq_of_key he hg (hid.trans (asWritten_id hsame).symm)
    obtain ⟨h₁, h₂, -⟩ := hs e he
    have hsaved := writeBack_attempts row updated e hatt
    refine ⟨h₁, fun _ t ht => (h₂ (hpos.trans_le hle) t ht).trans hnow, fun hzero => ?_⟩
    omega
  intro e he
  cases event_of_change hr h he with
  | kept hmem =>
    obtain ⟨h₁, h₂, h₃⟩ := hs e hmem
    exact ⟨h₁, fun hpos t ht => (h₂ hpos t ht).trans hnow, h₃⟩
  | new hnew =>
    refine ⟨hnew.aggregate, fun hpos => ?_, fun _ => hnew.pending⟩
    rw [hnew.attempts] at hpos
    cases hpos
  | claimed hmem h₁ h₂ hclaimable =>
    refine ⟨(hs _ hmem).1, fun _ t ht => ?_, fun hzero => ?_⟩
    · exact (due_of_claimable hs hmem h₁ hclaimable ht).trans h₂
    · exact absurd hzero (Nat.succ_ne_zero _)
  | published hmem hp hid => exact recorded hmem (hrows _ _ (congrArg Publisher.row? hp)) hid rfl
  | raised hmem hp hid => exact recorded hmem (hrows _ _ (congrArg Publisher.row? hp)) hid rfl

/-! ## The publishers -/

theorem publisher_claims {p q : Nat} {c : ClaimedOutboxEvent} (h : PublisherChange env s p s')
    (hc : c ∈ (s'.publishers q).claims) :
    c ∈ (s.publishers q).claims ∨ s'.store.Announced c.message := by
  by_cases hq : q = p
  · subst hq
    cases h with
    | @claim t₁ t₃ claimDeadline locked hp =>
      simp only [State.setPublisher, Function.update_self, Publisher.claims] at hc
      obtain ⟨e, he, rfl⟩ := List.mem_map.1 hc
      refine .inr ⟨e.claimed t₃, mem_claimRows.2 ⟨e, (mem_selectClaimable he).1, ?_⟩, rfl, rfl,
        rfl, Nat.succ_pos _⟩
      rw [if_pos (List.mem_map.2 ⟨e, he, rfl⟩)]
    | skip hp | load hp | publish hp | raise hp | recordPublished hp | recordRaised hp =>
      left
      simp only [State.setPublisher, Function.update_self, Publisher.claims] at hc
      simp [hp, Publisher.claims, hc]
    | stop => simp [State.setPublisher, Publisher.claims] at hc
  · cases h <;> left <;> simpa [State.setPublisher, hq] using hc

theorem publisher_row {p q : Nat} {row : OutboxEvent} (h : PublisherChange env s p s')
    (hrow : (s'.publishers q).row? = some row) : (s.publishers q).row? = some row ∨
      ∃ e todo, s.publishers q = .working (e :: todo) ∧ s.store.outbox.get e.id = some row ∧
        s'.publishers q = .loaded e row todo := by
  by_cases hq : q = p
  · subst hq
    cases h with
    | claim | skip | recordPublished | recordRaised | stop =>
      simp [State.setPublisher, Publisher.row?] at hrow
    | load hp hget =>
      simp only [State.setPublisher, Function.update_self, Publisher.row?] at hrow
      cases hrow
      exact .inr ⟨_, _, hp, hget, by simp [State.setPublisher]⟩
    | publish hp | raise hp =>
      left
      simp only [State.setPublisher, Function.update_self, Publisher.row?] at hrow
      simp [hp, Publisher.row?, hrow]
  · cases h <;> left <;> simpa [State.setPublisher, hq] using hrow

theorem publisher_loaded {p q : Nat} {e : ClaimedOutboxEvent} {row : OutboxEvent}
    {todo : List ClaimedOutboxEvent} (h : PublisherChange env s p s')
    (hload : s'.publishers q = .loaded e row todo) :
    s.publishers q = .loaded e row todo ∨ row.id = e.id := by
  by_cases hq : q = p
  · subst hq
    cases h with
    | load hp hget =>
      simp only [State.setPublisher, Function.update_self] at hload
      cases hload
      exact .inr (Table.get_key hget)
    | claim | skip | publish | raise | recordPublished | recordRaised | stop =>
      simp [State.setPublisher] at hload
  · cases h <;> left <;> simpa [State.setPublisher, hq] using hload

theorem publisher_publishes {p : Nat} {c : PublishCall} (h : PublisherChange env s p s')
    (hc : c ∈ s'.publishes) : c ∈ s.publishes ∨
      ∃ e row todo, s.publishers p = .loaded e row todo ∧ e.id = c.event ∧ c.time = s.now := by
  cases h with
  | claim | skip | load | recordPublished | recordRaised | stop => exact .inl hc
  | publish hp | raise hp =>
    rcases List.mem_append.1 hc with hc | hc
    · exact .inl hc
    · obtain rfl := List.mem_singleton.1 hc
      exact .inr ⟨_, _, _, hp, rfl, rfl⟩

/-! ## The invariant -/

theorem publishers_of_step (h : step env s a = some s') :
    (s'.publishers = s.publishers ∧ s'.publishes = s.publishes) ∨
      ∃ p, PublisherChange env s p s' := by
  rcases step_party h with ⟨w, b, -, hw⟩ | ⟨p, b, -, hp⟩ | hf
  · have hf := workerStep_frame hw
    exact .inl ⟨hf.publishers, hf.publishes⟩
  · exact .inr ⟨p, publisherStep_cases hp⟩
  · exact .inl ⟨hf.publishers, hf.publishes⟩

theorem traced_step (hr : Referenced s) (hs : Traced s) (h : step env s a = some s') :
    Traced s' := by
  have hchange := change_of_step h
  have hext := hchange.extends
  have hevents : EventsTraced s' := eventsTraced_step hr hs.rows
    (fun e he => ⟨hs.aggregate e he, hs.due e he, hs.unclaimed e he⟩) hchange
  -- what a publisher has loaded was announced when it was claimed
  have announced {p : Nat} {e : ClaimedOutboxEvent} {row : OutboxEvent}
      {todo : List ClaimedOutboxEvent} (hload : s.publishers p = .loaded e row todo) :
      s.store.Announced e.message :=
    hs.claims p e (by rw [hload]; exact List.mem_cons_self)
  refine ⟨fun e he => (hevents e he).1, fun e he => (hevents e he).2.1,
    fun e he => (hevents e he).2.2, ?_, ?_, ?_, ?_, ?_⟩
  · intro p c hc
    rcases publishers_of_step h with ⟨hp, -⟩ | ⟨q, hq⟩
    · exact hext.announced (hs.claims p c (hp ▸ hc))
    · exact (publisher_claims hq hc).elim (fun hc => hext.announced (hs.claims p c hc)) id
  · intro p row hrow
    rcases publishers_of_step h with ⟨hp, -⟩ | ⟨q, hq⟩
    · exact hext.loaded (hs.rows p row (hp ▸ hrow))
    · rcases publisher_row hq hrow with hrow | ⟨e, todo, hworking, hget, -⟩
      · exact hext.loaded (hs.rows p row hrow)
      · obtain ⟨hmem, hid⟩ := Table.get_eq_some.1 hget
        obtain ⟨f, hf, hfid, -, -, hpos⟩ :=
          hs.claims p e (by rw [hworking]; exact List.mem_cons_self)
        obtain rfl : f = row := Table.eq_of_key hf hmem (hfid.trans hid.symm)
        exact hext.loaded ⟨hpos, f, hf, rfl, le_rfl⟩
  · intro p e row todo hload
    rcases publishers_of_step h with ⟨hp, -⟩ | ⟨q, hq⟩
    · exact hs.loaded p e row todo (hp ▸ hload)
    · exact (publisher_loaded hq hload).elim (hs.loaded p e row todo) id
  · intro m hm
    rcases known_of_step h hm with hm | ⟨p, e, row, todo, hload, rfl⟩
    · exact hext.announced (hs.known m hm)
    · exact hext.announced (announced hload)
  · intro c hc
    have old (hc : c ∈ s.publishes) : ∃ m, m.event = c.event ∧ s'.store.Announced m := by
      obtain ⟨m, hm, hann⟩ := hs.publishes c hc
      exact ⟨m, hm, hext.announced hann⟩
    rcases publishers_of_step h with ⟨-, hp⟩ | ⟨q, hq⟩
    · exact old (hp ▸ hc)
    · rcases publisher_publishes hq hc with hc | ⟨e, row, todo, hload, hid, -⟩
      · exact old hc
      · exact ⟨e.message, hid, hext.announced (announced hload)⟩

/-- **Every reachable state is traced.** -/
theorem traced_reach {ok : State → Action → Prop} (h : (machine env).Reach ok s) : Traced s := by
  refine Machine.Reach.induct ?_ (fun t a t' hreach ht _ hstep => ?_) h
  · rintro _ ⟨now, rfl⟩
    exact traced_initial now
  · exact traced_step (referenced_reach hreach) ht hstep

end NotificationSystem
