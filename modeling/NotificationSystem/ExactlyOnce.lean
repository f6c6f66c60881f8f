import NotificationSystem.Records

/-!
# Bulk creation is exactly-once per live key

While the record of a key is live its batch holds the key, so the unique constraint stops
every commit that would create a second one, whatever the request has read and whoever holds
the lock. What a request of that key answers then comes from the record.

* `LiveAnswer` — the answers that a live record allows.
* `ExactlyOnce` — the guarantees of `create_bulk`.
* `exactly_once` — they hold in every reachable state.
-/

namespace NotificationSystem

open Lib

variable {env : Deployment} {s s' : State} {a : Action} {r : IdempotencyKey}

/-- What a request for `body` may answer while the record `r` of its key is live, where
`response` is the stored response. Only a request that was aborted or has crashed answers
nothing of its own. -/
inductive LiveAnswer (env : Deployment) (r : IdempotencyKey) (response : BulkNotificationResponse)
    (body : BulkNotificationRequest) : RequestAction → Outcome → Prop
  | alreadyExists {a : RequestAction} : env.requestHash body = r.requestHash →
      LiveAnswer env r response body a (.alreadyExists (alreadyExists response))
  | conflict {a : RequestAction} : env.requestHash body ≠ r.requestHash →
      LiveAnswer env r response body a .conflict
  | inProgress {a : RequestAction} : LiveAnswer env r response body a .inProgress
  | raised : LiveAnswer env r response body .abort .raised
  | crashed : LiveAnswer env r response body .crash .crashed

/-- The guarantees of `create_bulk`, from the state `s` on. -/
structure ExactlyOnce (env : Deployment) (s : State) : Prop where
  /-- An accepted request leaves a record of its own, backed by its batch. -/
  accepted : ∀ q ids stamps s' x response,
    step env s (.request q (.commit ids stamps)) = some s' → s'.requests q = some x →
    x.phase = .releasing (.accepted response) →
    ∃ r, s'.store.idempotencyKeys.get x.key = some r ∧ r.requestHash = env.requestHash x.body ∧
      r.responsePayload = some response ∧ ∃ b ∈ s'.store.batches, s'.store.Backs b r
  /-- Until it expires a record stays, its batch is the only one that holds the key, no request
  of the key writes anything, and what they answer is the stored response. -/
  live : ∀ key r, s.store.idempotencyKeys.get key = some r → ∀ as u,
    (machine env).Run Machine.Always s as u → u.now < r.expiresAt →
    u.store.idempotencyKeys.get key = some r ∧
      ∃ b ∈ u.store.batches, u.store.Backs b r ∧
        (∀ b' ∈ u.store.batches, b'.idempotencyKey = some key → b' = b) ∧
        ∀ q a u' x, step env u (.request q a) = some u' → u'.now < r.expiresAt →
          u'.requests q = some x → x.key = key →
          u'.store = u.store ∧
            ∀ o, x.phase.outcome? = some o →
              (∀ y, u.requests q = some y → y.phase.outcome? = none) →
              LiveAnswer env r ⟨b.id, "accepted", u.store.batchSize b.id⟩ x.body a o
  /-- Only the step that accepts a request writes. -/
  writes : ∀ q a s', step env s (.request q a) = some s' → s'.store = s.store ∨
    ∃ x response, s'.requests q = some x ∧ x.phase = .releasing (.accepted response)
  /-- A request that has decided on an answer keeps it, unless it crashes. -/
  decided : ∀ q a s' y o, step env s (.request q a) = some s' → s.requests q = some y →
    y.phase.outcome? = some o → ∃ x, s'.requests q = some x ∧ s'.store = s.store ∧
      (x.phase.outcome? = some o ∨ a = .crash)

/-! ## A live record -/

/-- **No second batch is committed for a live key**, whatever the request has read. -/
theorem commit_blocked (hs : Recorded s) {q : Nat} {x : Request} {reservation : Reservation}
    {ids : Nat → Uuid} {stamps : Nat → Time} {st : Store} {response : BulkNotificationResponse}
    (hr : r ∈ s.store.idempotencyKeys) (hlive : s.now < r.expiresAt)
    (hq : s.requests q = some x) (hphase : x.phase = .reserved reservation) (hkey : x.key = r.key)
    (hfresh : s.store.Fresh (bulkIds ids (distinctRecipients x.body.recipientIds).length)) :
    commitBulk s.store x.body x.key (env.requestHash x.body) reservation ids stamps ≠
      .ok (st, response) := by
  intro hcom
  obtain ⟨expired, expiresAt, rfl, -⟩ := hs.reservation hq hphase
  have hc := created_of_commit hcom
  obtain ⟨b, hb, hbacks⟩ := hs.records r hr
  -- the batch of the live record keeps its key, which the new one needs
  have hsame : b.releasedBy expired.toList = b := by
    refine releasedBy_of_not_mem fun y hy heq => ?_
    obtain ⟨hexp, -, hshare⟩ := hs.snapshots y
      (.inr ⟨q, x, expiresAt, hq, by rw [hphase, Option.mem_toList.1 hy]⟩)
    obtain rfl := hshare r hr (hbacks.batchId.trans heq.symm)
    exact absurd hexp (not_le.2 hlive)
  have hold := (mem_created_batches hc).2 (.inl ⟨b, hb, hsame.symm⟩)
  have hnew := (mem_created_batches hc).2 (.inr rfl)
  have heq := batch_unique hc.unique hold hnew hbacks.key (by rw [← hkey]; rfl)
  have hid : b.id = ids 0 := congrArg NotificationBatch.id heq
  exact bulkIds_fresh hfresh (Nat.zero_le _) (hid ▸ mem_uuids_of_batch hb)

theorem commitBulk_error {st : Store} {request : BulkNotificationRequest}
    {key requestHash : String} {expired : Option IdempotencyKey} {expiresAt : Time}
    {ids : Nat → Uuid} {stamps : Nat → Time} {e : Raised}
    (h : commitBulk st request key requestHash (.newRecord expired expiresAt) ids stamps =
      .error e) : e = .integrityError ∨ e = .dataError := by
  simp only [commitBulk] at h
  split at h
  · next hwrite =>
    simp only [writeRecord] at hwrite
    split at hwrite
    · cases hwrite
      cases h
      exact .inl rfl
    · cases hwrite
  · split at h
    · cases h
      exact .inr rfl
    · split at h
      · split at h
        · cases h
          exact .inl rfl
        · split at h
          · cases h
            exact .inr rfl
          · cases h
      · cases h
        exact .inl rfl

theorem afterRead_live {cfg : Settings} {st : Store} {key requestHash : String} {t₁ t₂ : Time}
    {response : BulkNotificationResponse} (hget : st.idempotencyKeys.get key = some r)
    (hlive : t₁ < r.expiresAt) (hresponse : r.responsePayload = some response) :
    afterRead (reserveOrGet cfg st key requestHash t₁ t₂) =
      if r.requestHash ≠ requestHash then .releasing .conflict
      else .releasing (.alreadyExists (alreadyExists response)) := by
  have hexp : r.isExpired t₁ = false := by simpa [IdempotencyKey.isExpired] using hlive
  simp only [reserveOrGet, hget, hexp, hresponse]
  by_cases hhash : r.requestHash = requestHash <;> simp [hhash, afterRead]

theorem liveAnswer_of_compare {body : BulkNotificationRequest} {b : RequestAction} {o : Outcome}
    {response : BulkNotificationResponse}
    (ho : (if r.requestHash ≠ env.requestHash body then RequestPhase.releasing .conflict
      else .releasing (.alreadyExists (alreadyExists response))).outcome? = some o) :
    LiveAnswer env r response body b o := by
  split at ho
  · next hne =>
    cases ho
    exact .conflict fun heq => hne heq.symm
  · next heq =>
    cases ho
    exact .alreadyExists (not_not.1 heq).symm

/-- While its record is live a key's requests write nothing, and answer from the record. -/
theorem live_request (hs : Recorded s) {q : Nat} {b : RequestAction}
    {x : Request} {response : BulkNotificationResponse}
    (hr : s.store.idempotencyKeys.get x.key = some r)
    (hresponse : r.responsePayload = some response)
    (hnow : s.now ≤ s'.now) (hlive : s'.now < r.expiresAt) (h : RequestChange env s q b s')
    (hx : s'.requests q = some x) :
    s'.store = s.store ∧ ∀ o, x.phase.outcome? = some o →
      (∀ y, s.requests q = some y → y.phase.outcome? = none) →
      LiveAnswer env r response x.body b o := by
  have hkey := Table.get_key hr
  cases h with
  | submitted _ _ hq hstore =>
    obtain rfl := Option.some.inj (hq.symm.trans hx)
    exact ⟨hstore, nofun⟩
  | refused _ _ hq hstore =>
    obtain rfl := Option.some.inj (hq.symm.trans hx)
    refine ⟨hstore, fun o ho _ => ?_⟩
    cases ho
    exact .inProgress
  | @read y t₁ t₂ _ _ _ _ h₂ ht hq hstore =>
    obtain rfl := Option.some.inj (hq.symm.trans hx)
    refine ⟨hstore, fun o ho _ => ?_⟩
    simp only at ho hr
    rw [afterRead_live hr (lt_of_le_of_lt (h₂.trans ht.ge) hlive) hresponse] at ho
    exact liveAnswer_of_compare ho
  | committed hq hphase hfresh hcom hq' =>
    obtain rfl := Option.some.inj (hq'.symm.trans hx)
    exact absurd hcom (commit_blocked hs (Table.mem_of_get hr) (lt_of_le_of_lt hnow hlive) hq hphase
      hkey.symm hfresh)
  | @rejected y reservation ids stamps e _ hq hphase hfresh hcom he hq' hstore =>
    obtain rfl := Option.some.inj (hq'.symm.trans hx)
    refine ⟨hstore, fun o ho _ => ?_⟩
    obtain ⟨expired, expiresAt, rfl, -⟩ := hs.reservation hq hphase
    rcases commitBulk_error hcom with rfl | rfl
    · cases ho
    · exact absurd rfl he
  | found hq hphase hq' hstore =>
    obtain rfl := Option.some.inj (hq'.symm.trans hx)
    refine ⟨hstore, fun o ho _ => ?_⟩
    simp only [afterFind, findRecord, show _ = some r from hr, hresponse] at ho
    exact liveAnswer_of_compare ho
  | aborted _ _ hq hstore =>
    obtain rfl := Option.some.inj (hq.symm.trans hx)
    refine ⟨hstore, fun o ho _ => ?_⟩
    cases ho
    exact .raised
  | released _ hq ho hphase hq' hstore =>
    obtain rfl := Option.some.inj (hq'.symm.trans hx)
    refine ⟨hstore, fun _ _ hnone => ?_⟩
    cases ho.symm.trans (hnone _ hq)
  | crashed _ hq hstore =>
    obtain rfl := Option.some.inj (hq.symm.trans hx)
    refine ⟨hstore, fun o ho _ => ?_⟩
    cases ho
    exact .crashed

theorem live_step (hs : Recorded s) (h : ApiChange env s a s') {key : String}
    (hr : s.store.idempotencyKeys.get key = some r) (hlive : s'.now < r.expiresAt) :
    s'.store.idempotencyKeys.get key = some r := by
  obtain ⟨hmem, rfl⟩ := Table.get_eq_some.1 hr
  have kept (hk : r ∈ s'.store.idempotencyKeys) : s'.store.idempotencyKeys.get r.key = some r :=
    Table.get_of_mem hk
  cases h with
  | quiet _ _ _ _ hk => exact kept (hk ▸ hmem)
  | select | stop => exact hr
  | delete => exact kept (mem_deleteExpired.2 ⟨hmem, hlive⟩)
  | request hnow hchange =>
    rcases hs.request_store hchange with
      hstore | ⟨x, expired, expiresAt, ids, stamps, response, hq, hphase, hrepl, hfresh, hcom⟩
    · rwa [hstore]
    · refine kept (((created_of_commit hcom).records r).2 (.inl ⟨hmem, fun y hy hkey => ?_⟩))
      -- a request of the same key cannot have committed
      have hsame : x.key = r.key := (hrepl y hy).symm.trans hkey.symm
      exact commit_blocked hs hmem (lt_of_le_of_lt hnow hlive) hq hphase hsame hfresh hcom

theorem live_run {key : String} {as : List Action} {u : State}
    (h : (machine env).Reach Machine.Always s) (hr : s.store.idempotencyKeys.get key = some r)
    (hrun : (machine env).Run Machine.Always s as u) (hlive : u.now < r.expiresAt) :
    u.store.idempotencyKeys.get key = some r := by
  refine Machine.Run.induct
    (I := fun u => u.now < r.expiresAt → u.store.idempotencyKeys.get key = some r) h
    (fun _ => hr) (fun t a t' ht hI _ hstep hlive => ?_) hrun hlive
  have hle : t.now ≤ t'.now := (change_of_step hstep).now_le
  exact live_step (recorded_reach ht) (apiChange_of_step hstep) (hI (lt_of_le_of_lt hle hlive))
    hlive

/-! ## The theorem -/

/-- **Bulk creation is exactly-once per live key** in every run, with the lock expiring at any
moment. -/
theorem exactly_once (h : (machine env).Reach Machine.Always s) : ExactlyOnce env s where
  accepted q ids stamps s' x response hstep hx hphase := by
    have h' : (machine env).Reach Machine.Always s' :=
      Machine.Reach.step (a := .request q (.commit ids stamps)) h trivial hstep
    have hs := recorded_reach h
    have hchange : RequestChange env s q (.commit ids stamps) s' := requestStep_cases hstep
    cases hchange with
    | @committed y reservation _ _ response' _ hq hreserved hfresh hcom hq' =>
      obtain rfl := Option.some.inj (hq'.symm.trans hx)
      cases hphase
      obtain ⟨expired, expiresAt, rfl, -⟩ := hs.reservation hq hreserved
      have hmem := ((created_of_commit hcom).records _).2 (.inr rfl)
      exact ⟨_, Table.get_of_mem hmem, rfl, rfl, (recorded_reach h').records _ hmem⟩
    | rejected _ _ _ _ _ hq =>
      obtain rfl := Option.some.inj (hq.symm.trans hx)
      simp only at hphase
      split at hphase <;> cases hphase
    | released hcases => simp at hcases
  live key r hr as u hrun hlive := by
    have hu : (machine env).Reach Machine.Always u := h.run hrun
    have hs := recorded_reach hu
    have hget := live_run h hr hrun hlive
    obtain ⟨hmem, rfl⟩ := Table.get_eq_some.1 hget
    obtain ⟨b, hb, hbacks⟩ := hs.records r hmem
    refine ⟨hget, b, hb, hbacks, fun b' hb' hk => batch_unique hs.unique hb' hb hk hbacks.key, ?_⟩
    intro q a u' x hstep hlive' hx hkey
    have hle : u.now ≤ u'.now := (change_of_step hstep).now_le
    exact live_request hs (hkey ▸ hget) hbacks.response hle hlive' (requestStep_cases hstep) hx
  writes q a s' hstep := by
    have hchange : RequestChange env s q a s' := requestStep_cases hstep
    cases hchange with
    | committed _ _ _ _ hq => exact .inr ⟨_, _, hq, rfl⟩
    | submitted _ _ _ hstore | refused _ _ _ hstore | read _ _ _ _ _ _ hstore
    | rejected _ _ _ _ _ _ hstore | found _ _ _ hstore | aborted _ _ _ hstore
    | released _ _ _ _ _ hstore | crashed _ _ hstore => exact .inl hstore
  decided q a s' y o hstep hy ho := by
    have hchange : RequestChange env s q a s' := requestStep_cases hstep
    -- nothing has been decided before the read, the commit and the second look
    have undecided {x : Request} (hx : s.requests q = some x) (hnone : x.phase.outcome? = none) :
        False := by
      obtain rfl := Option.some.inj (hx.symm.trans hy)
      cases hnone.symm.trans ho
    cases hchange with
    | submitted hnone | refused hnone => cases hnone.symm.trans hy
    | read hx hphase | committed hx hphase | rejected hx hphase | found hx hphase =>
      exact (undecided hx (by rw [hphase]; rfl)).elim
    | aborted hx hnone => exact (undecided hx hnone).elim
    | released _ hx ho' hphase hq hstore =>
      obtain rfl := Option.some.inj (hx.symm.trans hy)
      exact ⟨_, hq, hstore, .inl (hphase.trans (ho'.symm.trans ho))⟩
    | crashed _ hq hstore => exact ⟨_, hq, hstore, .inr rfl⟩

/-- The record of the sample request is live. -/
theorem exactly_once_created : ∃ (s : State) (r : IdempotencyKey),
    s.store.idempotencyKeys.get "key" = some r ∧ s.now < r.expiresAt ∧
      ExactlyOnce Sample.env s := by
  obtain ⟨s, hrun, hs⟩ := Machine.Run.exists_of_exec_always (machine Sample.env) (.initial 0)
    Sample.creation
    (fun s => (s.store.idempotencyKeys.get "key").any (s.now < ·.expiresAt)) (by decide)
  obtain ⟨r, hr, hlive⟩ := (Option.any_eq_true _ _).1 hs
  exact ⟨s, r, hr, by simpa using hlive, exactly_once (.run (.init ⟨0, rfl⟩) hrun)⟩

end NotificationSystem
