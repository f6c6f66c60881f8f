import NotificationSystem.Claims

/-!
# Publishers that have lost their claim

A claim that is older than `outbox_claim_timeout_seconds` may be taken over. The publisher that
made it is not told: `_publish_one` loads the row again, publishes and records its outcome,
whoever holds the claim by then.

* `lost_claim_disturbs` — the outcome of a claim that was taken over undoes the new one.
* `RecordsOwnClaims` — no outcome of such a claim is recorded.
* `claims_protected` — then a publisher that has lost its claim leaves the event alone, published
  events stay published, and young claims are not taken over.
-/

namespace NotificationSystem

open Lib

variable {env : Deployment} {s s' : State} {a : Action} {p : Nat} {e : Uuid} {l : Ledger}

/-- Another publisher has made a newer claim of the event than `p`. -/
def Ledger.Lost (l : Ledger) (p : Nat) (e : Uuid) : Prop :=
  ∃ c, l.latest e = some c ∧ c.publisher ≠ p

/-- The columns that tell what has become of an event. -/
def OutboxEvent.outcome (e : OutboxEvent) : OutboxStatus × Option Time × Option Time :=
  (e.status, e.lockedAt, e.publishedAt)

/-- No publisher records an outcome for an event whose newest claim is another's. -/
def RecordsOwnClaims (x : State × Ledger) : Action → Prop
  | .publisher p (.record _) => ∀ row, (x.1.publishers p).row? = some row → ¬ x.2.Lost p row.id
  | _ => True

/-- With this action, which leads to `s'`, `p` claims the event. -/
def Claims (p : Nat) (e : Uuid) (a : Action) (s' : State) : Prop :=
  (∃ t₁ t₂ t₃ locked, a = .publisher p (.claim t₁ t₂ t₃ locked)) ∧
    ∃ k ∈ (s'.publishers p).claims, k.id = e

/-- What a claim is worth in the state `x` and in every run from there. -/
structure ClaimsProtected (env : Deployment) (ok : State × Ledger → Action → Prop)
    (x : State × Ledger) : Prop where
  /-- Until it claims the event again, a publisher that has lost its claim changes nothing about
  it. -/
  lost : ∀ as y p e b z row, x.2.Lost p e →
    (claimMachine env).Run (fun y a => ok y a ∧
      ∀ z, (claimMachine env).step y a = some z → ¬ Claims p e a z.1) x as y →
    ok y (.publisher p b) → (claimMachine env).step y (.publisher p b) = some z →
    ¬ Claims p e (.publisher p b) z.1 → y.1.store.outbox.get e = some row →
    ∃ row', z.1.store.outbox.get e = some row' ∧ row'.outcome = row.outcome
  /-- A published event stays published. -/
  published : ∀ as y e, (claimMachine env).Run ok x as y → e ∈ x.1.store.outbox →
    e.status = .published → ∃ e', y.1.store.outbox.get e.id = some e' ∧ e'.status = .published
  /-- A claim that is not recorded is older than the timeout when its event is claimed again. -/
  young : ∀ q t₁ t₂ t₃ locked y, ok x (.publisher q (.claim t₁ t₂ t₃ locked)) →
    (claimMachine env).step x (.publisher q (.claim t₁ t₂ t₃ locked)) = some y →
    ∀ k ∈ (y.1.publishers q).claims, ∀ c ∈ x.2, c.event = k.id → c.recorded = false →
      c.time + env.outboxClaimTimeoutSeconds * 1000000 < t₂

/-! ## Lost claims -/

theorem lost_step (hr : Referenced s) (hlost : l.Lost p e) (h : step env s a = some s')
    (hnot : ¬ Claims p e a s') : (noteClaims l s a s').Lost p e := by
  have hchange := ledgerChange_of_step (l := l) hr h
  generalize noteClaims l s a s' = l' at hchange ⊢
  -- marking a claim keeps its publisher
  have marked {q : Nat} {e' : Uuid} {f : Claim → Claim}
      (hf : ∀ c, (f c).publisher = c.publisher ∧ (f c).event = c.event) :
      Ledger.Lost (modifyFirst (Claim.isOf q e') f l) p e := by
    obtain ⟨c, hc, hne⟩ := hlost
    by_cases he : e = e'
    · subst he
      refine ⟨_, (latest_modify hf).trans (congrArg _ hc), ?_⟩
      show (if _ then f c else c).publisher ≠ p
      split
      · exact (hf c).1 ▸ hne
      · exact hne
    · exact ⟨c, (latest_modify_ne hf he).trans hc, hne⟩
  cases hchange with
  | quiet | move => exact hlost
  | @claim q t₁ t₂ t₃ claimDeadline locked _ hq _ _ _ _ heq =>
    by_cases hsel :
        e ∈ (selectClaimable env.toSettings s.store t₁ claimDeadline locked).map (·.id)
    · refine ⟨_, latest_claimed hsel, ?_⟩
      rintro rfl
      obtain ⟨f, hf, hid⟩ := List.mem_map.1 hsel
      refine hnot ⟨⟨t₁, t₂, t₃, locked, rfl⟩, ⟨f.id, f.eventType, f.payload⟩, ?_, hid⟩
      rw [heq]
      simp only [State.setPublisher, Function.update_self, Publisher.claims]
      exact List.mem_map_of_mem hf
    · obtain ⟨c, hc, hne⟩ := hlost
      exact ⟨c, (latest_claimed_ne hsel).trans hc, hne⟩
  | raise | recordPublished | recordRaised => exact marked (by simp)

theorem lost_keeps {b : PublisherAction} {row : OutboxEvent} (hlost : l.Lost p e)
    (hok : RecordsOwnClaims (s, l) (.publisher p b)) (h : publisherStep env s p b = some s')
    (hnot : ¬ Claims p e (.publisher p b) s') (hrow : s.store.outbox.get e = some row) :
    s'.store.outbox.get e = some row := by
  obtain ⟨hmem, rfl⟩ := Table.get_eq_some.1 hrow
  -- the rows whose outcome it may record are others
  have other {loaded : OutboxEvent} (hloaded : (s.publishers p).row? = some loaded)
      (hrecord : ∀ r, (s.publishers p).row? = some r → ¬ l.Lost p r.id) : row.id ≠ loaded.id :=
    fun heq => hrecord loaded hloaded (heq ▸ hlost)
  cases publisherStep_inv h with
  | @claim t₁ t₂ t₃ claimDeadline locked =>
    refine Table.get_of_mem (claimRows_keeps hmem fun hsel => ?_)
    obtain ⟨f, hf, hid⟩ := List.mem_map.1 hsel
    refine hnot ⟨⟨t₁, t₂, t₃, locked, rfl⟩, ⟨f.id, f.eventType, f.payload⟩, ?_, hid⟩
    simp only [State.setPublisher, Function.update_self, Publisher.claims]
    exact List.mem_map_of_mem hf
  | skip | load | publish | publishRaises | done | crash => exact hrow
  | recordPublished hp =>
    exact Table.get_of_mem (saveOutboxEvent_keeps hmem (other (by rw [hp]; rfl) hok))
  | recordRaised hp =>
    exact Table.get_of_mem (saveOutboxEvent_keeps hmem (other (by rw [hp]; rfl) hok))

/-! ## Claims and the rows they show in -/

/-- While the newest claim of an event is not recorded, the row shows it; an older claim that is
not recorded was older than the timeout when the newer one was made. -/
structure Guarded (env : Deployment) (x : State × Ledger) : Prop where
  processing : ∀ e ∈ x.1.store.outbox, ∀ c, x.2.latest e.id = some c → c.recorded = false →
    e.status = .processing ∧ e.lockedAt = some c.time
  spaced : x.2.Pairwise fun newer older => newer.event = older.event → older.recorded = false →
    older.time + env.outboxClaimTimeoutSeconds * 1000000 < newer.time

/-- A claim that is not recorded is older than the timeout when another one is made. -/
theorem young_claims (hb : Booked (s, l)) (hg : Guarded env (s, l)) {e : OutboxEvent}
    {t₁ t₂ claimDeadline : Time} (h₁ : s.now ≤ t₁) (h₂ : t₁ ≤ t₂)
    (hd : addSeconds t₂ (-env.outboxClaimTimeoutSeconds) = some claimDeadline)
    (he : e ∈ s.store.outbox) (hclaimable : e.claimable t₁ claimDeadline = true) {c : Claim}
    (hc : c ∈ l) (hevent : c.event = e.id) (hrec : c.recorded = false) :
    c.time + env.outboxClaimTimeoutSeconds * 1000000 < t₂ := by
  have hdeadline := addSeconds_eq_some hd
  cases hlatest : l.latest e.id with
  | none => exact absurd hevent (by simpa using List.find?_eq_none.1 hlatest c hc)
  | some k =>
    obtain ⟨hk', hkevent⟩ := latest_event hlatest
    obtain ⟨-, newer, older, hl, hnewer⟩ := List.find?_eq_some_iff_append.1 hlatest
    have hmem : c ∈ k :: older := by
      rw [hl] at hc
      refine (List.mem_append.1 hc).resolve_left fun hin => ?_
      simpa [hevent] using hnewer c hin
    rcases List.mem_cons.1 hmem with rfl | hold
    · obtain ⟨hstatus, hlocked⟩ := hg.processing e he c hlatest hrec
      have hlt : c.time < claimDeadline := by
        simpa [OutboxEvent.claimable, hstatus, hlocked] using hclaimable
      rw [hdeadline] at hlt
      linarith
    · have hspaced := hg.spaced
      rw [show l = newer ++ k :: older from hl] at hspaced
      have hlt := (List.pairwise_cons.1 (List.pairwise_append.1 hspaced).2.1).1 c hold
        (hkevent.trans hevent.symm) hrec
      exact hlt.trans_le ((hb.times k hk').trans (h₁.trans h₂))

theorem guarded_initial (now : Time) : Guarded env (State.initial now, []) where
  processing _ h := absurd h Table.not_mem_empty
  spaced := .nil

theorem unsettled_row (hb : Booked (s, l)) {row : OutboxEvent} {todo : List ClaimedOutboxEvent}
    (hu : (s.publishers p).unsettled = row.id :: todo.map (·.id)) :
    ∃ c, l.latestOf p row.id = some c ∧ c.recorded = false :=
  (hb.batches p).unsettled row.id (hu ▸ List.mem_cons_self)

theorem holder_of_not_lost {e : Uuid} {c : Claim} (hc : l.latestOf p e = some c)
    (hlost : ¬ l.Lost p e) : l.latest e = some c := by
  obtain ⟨hmem, hp, he⟩ := latestOf_event hc
  cases hlatest : l.latest e with
  | none => exact absurd he (by simpa using List.find?_eq_none.1 hlatest c hmem)
  | some k =>
    have hkp : k.publisher = p := by
      by_contra hne
      exact hlost ⟨k, hlatest, hne⟩
    -- the newest claim of the event is one of `p`, so it is the newest of `p`
    obtain ⟨hk, newer, older, hl, hnewer⟩ := List.find?_eq_some_iff_append.1 hlatest
    have hfind : l.latestOf p e = some k := by
      refine List.find?_eq_some_iff_append.2 ⟨?_, newer, older, hl, fun d hd => ?_⟩
      · exact isOf_iff.2 ⟨hkp, (latest_event hlatest).2⟩
      · have hne : ¬ d.event = e := by simpa using hnewer d hd
        simp [Claim.isOf, hne]
    exact congrArg some (Option.some.inj (hfind.symm.trans hc))

/-- A row whose outcome is recorded stays, or the publisher holds the newest claim of the event. -/
theorem saved_guarded (hb : Booked (s, l)) (hg : Guarded env (s, l)) {t : Time}
    (hok : RecordsOwnClaims (s, l) (.publisher p (.record t))) {row updated : OutboxEvent}
    {todo : List ClaimedOutboxEvent} (hrow : (s.publishers p).row? = some row)
    (hu : (s.publishers p).unsettled = row.id :: todo.map (·.id)) {e' : OutboxEvent}
    (he' : e' ∈ (s.store.saveOutboxEvent row updated).outbox) :
    ∃ e ∈ s.store.outbox, e.id = e'.id ∧ (e' = e ∨
      ∃ c, e.id = row.id ∧ c.publisher = p ∧ l.latest e.id = some c ∧ c.recorded = false ∧
        e.status = .processing) := by
  obtain ⟨e, he, rfl⟩ := mem_saveOutboxEvent.1 he'
  refine ⟨e, he, by split <;> rfl, ?_⟩
  by_cases hrowid : e.id = row.id
  · obtain ⟨c, hc, hrec⟩ := unsettled_row hb hu
    have hlatest := holder_of_not_lost hc (hok row hrow)
    exact .inr ⟨c, hrowid, (latestOf_event hc).2.1, hrowid ▸ hlatest, hrec,
      (hg.processing e he c (hrowid ▸ hlatest) hrec).1⟩
  · exact .inl (if_neg hrowid)

theorem processing_recorded (hb : Booked (s, l)) (hg : Guarded env (s, l)) {t : Time}
    (hok : RecordsOwnClaims (s, l) (.publisher p (.record t))) {row updated : OutboxEvent}
    {todo : List ClaimedOutboxEvent} (hrow : (s.publishers p).row? = some row)
    (hu : (s.publishers p).unsettled = row.id :: todo.map (·.id)) :
    ∀ e ∈ (s.store.saveOutboxEvent row updated).outbox, ∀ c,
      (l.markRecorded p row.id).latest e.id = some c →
      c.recorded = false → e.status = .processing ∧ e.lockedAt = some c.time := by
  intro e' he' c hc hrec
  obtain ⟨e, he, hid, hsame⟩ := saved_guarded hb hg hok hrow hu he'
  have hlatest : l.latest e.id = some c ∧ (e.id = row.id → c.publisher ≠ p) := by
    rw [← hid] at hc
    by_cases hrowid : e.id = row.id
    · rw [hrowid, Ledger.markRecorded, latest_modify (by simp)] at hc
      obtain ⟨d, hd, rfl⟩ := Option.map_eq_some_iff.1 hc
      split at hrec
      · cases hrec
      · next hnot =>
        rw [if_neg hnot, hrowid]
        exact ⟨hd, fun _ hp => hnot (isOf_iff.2 ⟨hp, (latest_event hd).2⟩)⟩
    · rw [Ledger.markRecorded, latest_modify_ne (by simp) hrowid] at hc
      exact ⟨hc, fun hid => absurd hid hrowid⟩
  rcases hsame with rfl | ⟨k, hrowid, hkp, hk, -⟩
  · exact hg.processing e' he c hlatest.1 hrec
  · cases hk.symm.trans hlatest.1
    exact absurd hkp (hlatest.2 hrowid)

theorem processing_claimed (hg : Guarded env (s, l)) {events : List OutboxEvent} {t : Time} :
    ∀ e ∈ (claimRows s.store events t).outbox, ∀ c,
      Ledger.latest ((events.map fun e => { event := e.id, publisher := p, time := t }) ++ l) e.id =
        some c → c.recorded = false → e.status = .processing ∧ e.lockedAt = some c.time := by
  intro e' he' c hc hrec
  obtain ⟨e, he, rfl⟩ := mem_claimRows.1 he'
  by_cases hsel : e.id ∈ events.map (·.id)
  · rw [if_pos hsel] at hc ⊢
    cases (latest_claimed hsel).symm.trans hc
    exact ⟨rfl, rfl⟩
  · rw [if_neg hsel] at hc ⊢
    rw [latest_claimed_ne hsel] at hc
    exact hg.processing e he c hc hrec

theorem spaced_modify {p : Nat} {e : Uuid} {f : Claim → Claim} (hg : Guarded env (s, l))
    (hf : ∀ c, (f c).event = c.event ∧ (f c).time = c.time ∧
      ((f c).recorded = false → c.recorded = false)) :
    (modifyFirst (Claim.isOf p e) f l).Pairwise fun newer older =>
      newer.event = older.event → older.recorded = false →
        older.time + env.outboxClaimTimeoutSeconds * 1000000 < newer.time := by
  refine pairwise_modifyFirst (fun c d hcd => ?_) (fun c d hcd => ?_) hg.spaced
  · rw [(hf c).1, (hf c).2.1]
    exact hcd
  · rw [(hf d).1, (hf d).2.1]
    exact fun hevent hrec => hcd hevent ((hf d).2.2 hrec)

theorem latest_markRaised {e e' : Uuid} {c : Claim} (h : (l.markRaised p e).latest e' = some c) :
    ∃ d, l.latest e' = some d ∧ d.time = c.time ∧ d.recorded = c.recorded := by
  by_cases hid : e' = e
  · rw [hid, Ledger.markRaised, latest_modify (by simp)] at h
    obtain ⟨d, hd, rfl⟩ := Option.map_eq_some_iff.1 h
    refine ⟨d, hid ▸ hd, ?_, ?_⟩
    · split <;> rfl
    · split <;> rfl
  · rw [Ledger.markRaised, latest_modify_ne (by simp) hid] at h
    exact ⟨c, h, rfl, rfl⟩

theorem guarded_step (hr : Referenced s) (hb : Booked (s, l))
    (hb' : Booked (s', noteClaims l s a s')) (hg : Guarded env (s, l))
    (hok : RecordsOwnClaims (s, l) a) (h : step env s a = some s') :
    Guarded env (s', noteClaims l s a s') := by
  have hchange := ledgerChange_of_step (l := l) hr h
  generalize hl' : noteClaims l s a s' = l' at hchange hb' ⊢
  cases hchange with
  | quiet _ _ _ hevents =>
    refine ⟨fun e he c hc hrec => ?_, hg.spaced⟩
    rcases hevents e he with he | hnew
    · exact hg.processing e he c hc hrec
    · -- a new event has not been claimed
      have hzero := hb'.attempts e he
      rw [hnew.attempts] at hzero
      obtain ⟨hmem, hevent⟩ := latest_event hc
      have hpos : 0 < Ledger.claimsOf l e.id :=
        List.countP_pos_iff.2 ⟨c, hmem, by simpa using hevent⟩
      exact absurd hzero hpos.ne
  | move _ hst =>
    refine ⟨fun e he c hc hrec => ?_, hg.spaced⟩
    exact hg.processing e (hst ▸ he) c hc hrec
  | @claim p t₁ t₂ t₃ claimDeadline locked _ hp h₁ h₂ h₃ hd heq =>
    subst heq
    refine ⟨processing_claimed hg, ?_⟩
    refine List.pairwise_append.2 ⟨?_, hg.spaced, fun c hc d hd' hevent hrec => ?_⟩
    · rw [List.pairwise_map]
      have hnd := nodup_selectClaimable env.toSettings s.store t₁ claimDeadline locked
      rw [List.Nodup, List.pairwise_map] at hnd
      exact hnd.imp fun hne heq => absurd heq hne
    · obtain ⟨e, he, rfl⟩ := List.mem_map.1 hc
      obtain ⟨hmem, hclaimable⟩ := mem_selectClaimable he
      exact (young_claims hb hg h₁ h₂ hd hmem hclaimable hd' hevent.symm hrec).trans_le h₃
  | raise =>
    refine ⟨fun e he k hk hrec => ?_, spaced_modify hg (by simp)⟩
    obtain ⟨d, hd, htime, hsame⟩ := latest_markRaised hk
    rw [← htime]
    exact hg.processing e he d hd (hsame.trans hrec)
  | @recordPublished p row todo t hp | @recordRaised p row error todo t hp =>
    have hu : (s.publishers p).unsettled = row.id :: todo.map (·.id) := by
      rw [hp]
      rfl
    exact ⟨processing_recorded hb hg hok (by rw [hp]; rfl) hu, spaced_modify hg (by simp)⟩

theorem guarded_reach {x : State × Ledger} (h : (claimMachine env).Reach RecordsOwnClaims x) :
    Guarded env x := by
  have hboth : Booked x ∧ Guarded env x := by
    refine Machine.Reach.induct_history (I := fun x => Booked x ∧ Guarded env x) ?_
      (fun s l a t hreach hx hok hstep => ?_) h
    · rintro _ ⟨now, rfl⟩
      exact ⟨booked_initial now, guarded_initial now⟩
    · have hr := referenced_reach hreach
      have hb' := booked_step hr (traced_reach hreach) hx.1 hstep
      exact ⟨hb', guarded_step hr hx.1 hb' hx.2 hok hstep⟩
  exact hboth.2

/-! ## The theorem -/

theorem published_step (hr : Referenced s) (ht : Traced s) (hb : Booked (s, l))
    (hg : Guarded env (s, l)) (hok : RecordsOwnClaims (s, l) a) (h : step env s a = some s')
    {id : Uuid} (he : ∃ e ∈ s.store.outbox, e.id = id ∧ e.status = .published) :
    ∃ e ∈ s'.store.outbox, e.id = id ∧ e.status = .published := by
  obtain ⟨e, he, rfl, hstatus⟩ := he
  have hattempts : 0 < e.attempts := by
    by_contra hzero
    rw [ht.unclaimed e he (by omega)] at hstatus
    cases hstatus
  obtain ⟨e', he', hsame, hle⟩ := (change_of_step h).extends.outbox he
  have hid := asWritten_id hsame
  refine ⟨e', he', hid, ?_⟩
  have unchanged (hmem : e' ∈ s.store.outbox) : e'.status = .published := by
    rw [Table.eq_of_key hmem he hid]
    exact hstatus
  have saved {p : Nat} {t : Time} {row updated : OutboxEvent} {todo : List ClaimedOutboxEvent}
      (hok : RecordsOwnClaims (s, l) (.publisher p (.record t)))
      (hrow : (s.publishers p).row? = some row)
      (hu : (s.publishers p).unsettled = row.id :: todo.map (·.id))
      (hst : e' ∈ (s.store.saveOutboxEvent row updated).outbox) : e'.status = .published := by
    obtain ⟨f, hf, hfid, hsaved⟩ := saved_guarded hb hg hok hrow hu hst
    obtain rfl := Table.eq_of_key hf he (hfid.trans hid)
    rcases hsaved with rfl | ⟨c, -, -, -, -, hproc⟩
    · exact hstatus
    · cases hstatus.symm.trans hproc
  have hchange := ledgerChange_of_step (l := l) hr h
  generalize noteClaims l s a s' = l' at hchange
  cases hchange with
  | quiet _ _ _ hevents =>
    refine (hevents e' he').elim unchanged fun hnew => ?_
    have hzero := hnew.attempts
    omega
  | move _ hst => exact unchanged (hst ▸ he')
  | raise => exact unchanged he'
  | claim _ _ _ _ _ heq =>
    subst heq
    obtain ⟨f, hf, rfl⟩ := mem_claimRows.1 he'
    split
    · next hsel =>
      -- a published event is not claimable
      obtain ⟨g, hmem, hgid⟩ := List.mem_map.1 hsel
      obtain ⟨hg', hclaimable⟩ := mem_selectClaimable hmem
      rw [if_pos hsel] at hid
      obtain rfl : g = e := Table.eq_of_key hg' he (hgid.trans hid)
      simp [OutboxEvent.claimable, hstatus] at hclaimable
    · next hsel =>
      rw [if_neg hsel] at hid
      rw [Table.eq_of_key hf he hid]
      exact hstatus
  | recordPublished hp => exact saved hok (by rw [hp]; rfl) (by rw [hp]; rfl) he'
  | recordRaised hp => exact saved hok (by rw [hp]; rfl) (by rw [hp]; rfl) he'

theorem lost_run {x y : State × Ledger} {as : List Action} {ok : State × Ledger → Action → Prop}
    (hx : (claimMachine env).Reach ok x) (hlost : x.2.Lost p e)
    (hrun : (claimMachine env).Run (fun y a => ok y a ∧
      ∀ z, (claimMachine env).step y a = some z → ¬ Claims p e a z.1) x as y) : y.2.Lost p e := by
  induction hrun with
  | nil => exact hlost
  | @snoc as y z a hr hok hstep ih =>
    have hy := hx.run (hr.mono fun _ _ hok => hok.1)
    have hreach : (machine env).Reach Machine.Always y.1 := hy.forget fun _ _ _ => trivial
    obtain ⟨hbase, hnote⟩ := Machine.step_withHistory.1 hstep
    rw [hnote]
    exact lost_step (referenced_reach hreach) ih hbase (hok.2 z hstep)

/-- **Claims protect their events** in every run in which no publisher records an outcome for an
event that another one has claimed since. -/
theorem claims_protected {x : State × Ledger} (hx : (claimMachine env).Reach RecordsOwnClaims x) :
    ClaimsProtected env RecordsOwnClaims x where
  lost as y p e b z row hlost hrun hok hstep hnot hrow :=
    ⟨row, lost_keeps (lost_run hx hlost hrun) hok (Machine.step_withHistory.1 hstep).1 hnot hrow,
      rfl⟩
  published as y e hrun he hstatus := by
    have hinv : ∃ e' ∈ y.1.store.outbox, e'.id = e.id ∧ e'.status = .published := by
      refine Machine.Run.induct (I := fun y => ∃ e' ∈ y.1.store.outbox,
        e'.id = e.id ∧ e'.status = .published) hx ⟨e, he, rfl, hstatus⟩ ?_ hrun
      intro y a z hy hI hok hz
      have hreach : (machine env).Reach Machine.Always y.1 := hy.forget fun _ _ _ => trivial
      exact published_step (referenced_reach hreach) (traced_reach hreach) (booked_reach hy)
        (guarded_reach hy) hok (Machine.step_withHistory.1 hz).1 hI
    obtain ⟨e', he', hid, hstatus'⟩ := hinv
    exact ⟨e', hid ▸ Table.get_of_mem he', hstatus'⟩
  young q t₁ t₂ t₃ locked y _ hstep k hk c hc hevent hrec := by
    have hclaim : publisherStep env x.1 q (.claim t₁ t₂ t₃ locked) = some y.1 :=
      (Machine.step_withHistory.1 hstep).1
    obtain ⟨-, ⟨h₁, h₂, -⟩, claimDeadline, hd, hy⟩ := claim_cases hclaim
    rw [hy] at hk
    simp only [State.setPublisher, Function.update_self, Publisher.claims] at hk
    obtain ⟨e, he, rfl⟩ := List.mem_map.1 hk
    obtain ⟨hmem, hclaimable⟩ := mem_selectClaimable he
    exact young_claims (booked_reach hx) (guarded_reach hx) h₁ h₂ hd hmem hclaimable hc hevent hrec

/-- Publisher 0 claims the sample's created event and loads its row. After the timeout publisher 1
takes the claim over. -/
def Sample.takeover : List Action :=
  Sample.creation ++ [.publisher 0 (.claim 0 0 0 []), .publisher 0 .load,
    .publisher 1 (.claim (Sample.sec 301) (Sample.sec 301) (Sample.sec 301) [])]

theorem claims_protected_takeover : ∃ x : State × Ledger, x.2.Lost 0 3 ∧
    (x.1.publishers 0).row?.isSome = true ∧
      ClaimsProtected Sample.env RecordsOwnClaims x := by
  obtain ⟨x, hrun, hx⟩ := Machine.Run.exists_of_exec (claimMachine Sample.env)
    RecordsOwnClaims (.initial 0, []) Sample.takeover
    (fun x => (x.2.latest 3).any (·.publisher ≠ 0) && (x.1.publishers 0).row?.isSome)
    (fun x a ha => by
      simp only [Sample.takeover, Sample.creation, List.mem_append, List.mem_cons,
        List.not_mem_nil, or_false] at ha
      rcases ha with (rfl | rfl | rfl) | rfl | rfl | rfl <;> trivial) (by decide)
  rw [Bool.and_eq_true, Option.any_eq_true] at hx
  obtain ⟨⟨c, hc, hne⟩, hrow⟩ := hx
  exact ⟨x, ⟨c, hc, by simpa using hne⟩, hrow,
    claims_protected (.run (.init ⟨⟨0, rfl⟩, rfl⟩) hrun)⟩

/-- Publisher 1 has published the event. Then publisher 0's own call raises. -/
def Sample.lateFailure : List Action :=
  Sample.takeover ++ [.publisher 1 .load, .publisher 1 .publish,
    .publisher 1 (.record (Sample.sec 301)), .publisher 0 (.publishRaises "broker is down" false)]

/-- **A lost claim disturbs its event**: the late failure makes a published event pending. -/
theorem lost_claim_disturbs : ¬ ∀ (env : Deployment) (x : State × Ledger),
    (claimMachine env).Reach Machine.Always x → ClaimsProtected env Machine.Always x := by
  intro h
  obtain ⟨x, hrun, hx⟩ := Machine.Run.exists_of_exec_always (claimMachine Sample.env)
    (.initial 0, []) Sample.lateFailure
    (fun x => (x.1.store.outbox.get 3).any (·.status = .published) &&
      ((claimMachine Sample.env).exec x [.publisher 0 (.record (Sample.sec 302))]).any fun y =>
        (y.1.store.outbox.get 3).any (·.status = .pending)) (by decide)
  rw [Bool.and_eq_true, Option.any_eq_true] at hx
  obtain ⟨⟨e, he, hpublished⟩, hnext⟩ := hx
  obtain ⟨y, hstep, hy⟩ := Machine.step_of_exec hnext
  obtain ⟨e', he', hpending⟩ := (Option.any_eq_true _ _).1 hy
  rw [decide_eq_true_eq] at hpublished hpending
  have hrecord : (claimMachine Sample.env).Run Machine.Always x _ y := .single trivial hstep
  obtain ⟨f, hf, hstatus⟩ := (h Sample.env x (.run (.init ⟨⟨0, rfl⟩, rfl⟩) hrun)).published _ y e
    hrecord (Table.mem_of_get he) hpublished
  rw [Table.get_key he, he'] at hf
  cases hf
  cases hstatus.symm.trans hpending

end NotificationSystem
