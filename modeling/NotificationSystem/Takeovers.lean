import NotificationSystem.Drain

/-!
# Duplicate messages and takeovers

An event is published again only after somebody took its claim over: a claim that found it
`processing`, because its publisher had crashed or was slower than the claim timeout. This holds
for any publishers, whatever stale outcomes they record over each other's claims.

The argument counts. A claim allows one publish call. A claim that is no takeover finds the event
`pending`, and after its creation the event is `pending` again only when a raised call was recorded.
So all claims but one are takeovers or were made after a call that raised.

* `takeoverMachine` — the system beside the list of takeovers.
* `Balanced`, `balanced_reach` — the two inequalities, with what the publishers still owe.
* `duplicates_cost_takeovers` — the theorem.
-/

namespace NotificationSystem

open Lib

variable {env : Deployment} {s s' : State} {a : Action} {p : Nat} {e : Uuid} {l : List Uuid}

/-- The events whose claims were taken over: each time, the row that was claimed was
`processing`. -/
def noteTakeovers (l : List Uuid) (s : State) : Action → State → List Uuid
  | .publisher p (.claim _ _ _ _), s' =>
    ((s'.publishers p).claims.filter fun c =>
      (s.store.outbox.get c.id).any (·.status = .processing)).map (·.id) ++ l
  | _, _ => l

/-- The system beside the takeovers. -/
def takeoverMachine (env : Deployment) : Machine (State × List Uuid) Action :=
  (machine env).withHistory [] noteTakeovers

/-! ## What is counted -/

/-- How many publish calls for an event have succeeded. -/
def State.successesOf (s : State) (e : Uuid) : Nat :=
  s.publishes.countP fun c => c.event = e && !c.raised

/-- The claims of an event that its row counts. -/
def State.attemptsOf (s : State) (e : Uuid) : Nat :=
  ((s.store.outbox.get e).map (·.attempts)).getD 0

/-- 1 for an event that is pending. -/
def State.pendingOf (s : State) (e : Uuid) : Nat :=
  if (s.store.outbox.get e).any (·.status = .pending) then 1 else 0

/-- 1 for an event that exists. -/
def State.createdOf (s : State) (e : Uuid) : Nat := if (s.store.outbox.get e).isSome then 1 else 0

/-- The publish calls for an event that a publisher still has to make. -/
def Publisher.owes (e : Uuid) (x : Publisher) : Nat := x.claims.countP (·.id = e)

/-- 1 for a publisher whose call for the event has raised and is not recorded. -/
def Publisher.failing (e : Uuid) : Publisher → Nat
  | .raised row _ _ => if row.id = e then 1 else 0
  | _ => 0

theorem pendingOf_of_get {row : OutboxEvent} (h : s.store.outbox.get e = some row) :
    s.pendingOf e = if row.status = .pending then 1 else 0 := by
  simp [State.pendingOf, h]

/-- What the first `N` publishers have together. -/
def State.total (s : State) (f : Publisher → Nat) (N : Nat) : Nat :=
  ∑ p ∈ Finset.range N, f (s.publishers p)

theorem total_mono (f : Publisher → Nat) {N M : Nat} (h : N ≤ M) : s.total f N ≤ s.total f M :=
  Finset.sum_le_sum_of_subset (Finset.range_mono h)

theorem total_of_eq (f : Publisher → Nat) (h : s'.publishers = s.publishers) (N : Nat) :
    s'.total f N = s.total f N := by
  unfold State.total
  rw [h]

theorem total_step (f : Publisher → Nat) {N : Nat} (hp : p < N)
    (h : ∀ q, q ≠ p → s'.publishers q = s.publishers q) :
    s'.total f N + f (s.publishers p) = s.total f N + f (s'.publishers p) := by
  have hmem : p ∈ Finset.range N := Finset.mem_range.2 hp
  have hrest : ∑ q ∈ (Finset.range N).erase p, f (s'.publishers q) =
      ∑ q ∈ (Finset.range N).erase p, f (s.publishers q) :=
    Finset.sum_congr rfl fun q hq => by rw [h q (Finset.ne_of_mem_erase hq)]
  unfold State.total
  rw [← Finset.add_sum_erase _ _ hmem, ← Finset.add_sum_erase _ _ hmem, hrest]
  omega

/-- A claim allows one call, and all claims but the first are takeovers or follow a raised call. -/
structure Balanced (s : State) (l : List Uuid) (e : Uuid) (N : Nat) : Prop where
  calls : s.successesOf e + s.raisesOf e + s.total (Publisher.owes e) N ≤ s.attemptsOf e
  claims : s.attemptsOf e + s.pendingOf e + s.total (Publisher.failing e) N ≤
    s.createdOf e + s.raisesOf e + l.count e

theorem Balanced.of_le {N M : Nat} (h : Balanced s l e M) (hle : N ≤ M) : Balanced s l e N where
  calls := by
    have hmono := total_mono (s := s) (Publisher.owes e) hle
    have hcalls := h.calls
    omega
  claims := by
    have hmono := total_mono (s := s) (Publisher.failing e) hle
    have hclaims := h.claims
    omega

/-! ## Rows that other processes write -/

/-- A step that is not a publisher's adds events, and leaves the others' attempts and statuses. -/
theorem rows_of_other (hr : Referenced s) (ht : Traced s) (h : step env s a = some s')
    (ha : ∀ p b, a ≠ .publisher p b) (e : Uuid) :
    s'.attemptsOf e = s.attemptsOf e ∧
      s'.pendingOf e + s.createdOf e = s.pendingOf e + s'.createdOf e := by
  have hevents := events_of_other hr h ha
  unfold State.attemptsOf State.pendingOf State.createdOf
  cases hrow : s.store.outbox.get e with
  | none =>
    cases hrow' : s'.store.outbox.get e with
    | none => exact ⟨rfl, rfl⟩
    | some row =>
      obtain ⟨hmem, hid⟩ := Table.get_eq_some.1 hrow'
      rcases hevents row hmem with hold | hnew
      · exact absurd hid (Table.get_eq_none.1 hrow row hold)
      · simp [hnew.attempts, hnew.pending]
  | some row =>
    obtain ⟨hmem, hid⟩ := Table.get_eq_some.1 hrow
    obtain ⟨row', hmem', hsame, hle⟩ := (change_of_step h).extends.outbox hmem
    have hrow' : s'.store.outbox.get e = some row' :=
      Table.get_eq_some.2 ⟨hmem', (asWritten_id hsame).trans hid⟩
    rw [hrow']
    rcases hevents row' hmem' with hold | hnew
    · obtain rfl := Table.eq_of_key hold hmem (asWritten_id hsame)
      exact ⟨rfl, rfl⟩
    · have hzero : row.attempts = 0 := by
        have hnew' := hnew.attempts
        omega
      simp [hnew.attempts, hnew.pending, hzero, ht.unclaimed row hmem hzero]

/-! ## A publisher's steps -/

theorem get_claimRows {st : Store} {events : List OutboxEvent} {t : Time} (e : Uuid) :
    (claimRows st events t).outbox.get e =
      if e ∈ events.map OutboxEvent.id then (st.outbox.get e).map (·.claimed t)
      else st.outbox.get e := by
  cases hrow : st.outbox.get e with
  | none =>
    have hnone : (claimRows st events t).outbox.get e = none := by
      refine Table.get_eq_none.2 fun row hrow' hid => ?_
      obtain ⟨f, hf, rfl⟩ := mem_claimRows.1 hrow'
      refine Table.get_eq_none.1 hrow f hf ?_
      split at hid
      · exact hid
      · exact hid
    rw [hnone]
    split <;> rfl
  | some row =>
    obtain ⟨hmem, rfl⟩ := Table.get_eq_some.1 hrow
    split
    · next hsel =>
      have hclaimed : row.claimed t ∈ (claimRows st events t).outbox :=
        mem_claimRows.2 ⟨row, hmem, by rw [if_pos hsel]⟩
      exact Table.get_of_mem hclaimed
    · next hsel =>
      have hkept : row ∈ (claimRows st events t).outbox :=
        mem_claimRows.2 ⟨row, hmem, by rw [if_neg hsel]⟩
      exact Table.get_of_mem hkept

theorem outbox_get_saveOutboxEvent {st : Store} {loaded updated : OutboxEvent} (e : Uuid) :
    (st.saveOutboxEvent loaded updated).outbox.get e =
      if e = loaded.id then (st.outbox.get e).map (OutboxEvent.writeBack loaded updated)
      else st.outbox.get e :=
  Table.get_modify (OutboxEvent.writeBack_id loaded updated)

/-- The two inequalities hold on, when one publisher moves and they hold of its share. -/
theorem balanced_of_publisher {l' : List Uuid} {N : Nat} (hp : p < N) (hb : Balanced s l e N)
    (hframe : ∀ q, q ≠ p → s'.publishers q = s.publishers q)
    (hcalls : s'.successesOf e + s'.raisesOf e + (s'.publishers p).owes e + s.attemptsOf e ≤
      s.successesOf e + s.raisesOf e + (s.publishers p).owes e + s'.attemptsOf e)
    (hclaims : s'.attemptsOf e + s'.pendingOf e + (s'.publishers p).failing e +
        (s.createdOf e + s.raisesOf e + l.count e) ≤
      s.attemptsOf e + s.pendingOf e + (s.publishers p).failing e +
        (s'.createdOf e + s'.raisesOf e + l'.count e)) : Balanced s' l' e N where
  calls := by
    have hstep := total_step (Publisher.owes e) hp hframe
    have hbefore := hb.calls
    omega
  claims := by
    have hstep := total_step (Publisher.failing e) hp hframe
    have hbefore := hb.claims
    omega

theorem claim_counts {t₁ t₃ claimDeadline : Time} {locked : List Uuid}
    (hs' : s'.store = claimRows s.store
      (selectClaimable env.toSettings s.store t₁ claimDeadline locked) t₃)
    (hp : s'.publishers p = .working ((selectClaimable env.toSettings s.store t₁ claimDeadline
      locked).map OutboxEvent.toClaimed)) (e : Uuid) :
    s'.attemptsOf e = s.attemptsOf e + (s'.publishers p).owes e ∧ s'.createdOf e = s.createdOf e ∧
      s'.pendingOf e + (s'.publishers p).owes e ≤ s.pendingOf e +
        (((s'.publishers p).claims.filter fun c =>
          (s.store.outbox.get c.id).any (·.status = .processing)).map (·.id)).count e := by
  have hget : s'.store.outbox.get e = _ := hs' ▸ get_claimRows e
  have howes : (s'.publishers p).owes e =
      ((selectClaimable env.toSettings s.store t₁ claimDeadline locked).map
        OutboxEvent.id).count e := by
    rw [Publisher.owes, hp, Publisher.claims, List.countP_map, List.count, List.countP_map]
    refine List.countP_congr fun f _ => ?_
    simp only [Function.comp_apply, OutboxEvent.toClaimed, beq_iff_eq]
    exact decide_eq_true_iff
  by_cases hsel : e ∈ (selectClaimable env.toSettings s.store t₁ claimDeadline locked).map
      OutboxEvent.id
  · have hone := List.count_eq_one_of_mem (nodup_selectClaimable _ _ _ _ _) hsel
    rw [if_pos hsel] at hget
    obtain ⟨f, hf, rfl⟩ := List.mem_map.1 hsel
    obtain ⟨hmem, hclaimable⟩ := mem_selectClaimable hf
    have hrow := Table.get_of_mem hmem
    rw [hrow] at hget
    refine ⟨?_, ?_, ?_⟩
    · simp [State.attemptsOf, hget, hrow, howes, hone, OutboxEvent.claimed]
    · simp [State.createdOf, hget, hrow]
    · rw [howes, hone]
      rcases status_of_claimable hclaimable with hpending | hprocessing
      · simp [State.pendingOf, hget, hrow, hpending, OutboxEvent.claimed]
      · -- the claim is a takeover
        have hcount : 0 < (((s'.publishers p).claims.filter fun c =>
            (s.store.outbox.get c.id).any (·.status = .processing)).map (·.id)).count f.id := by
          refine List.count_pos_iff.2 (List.mem_map.2 ⟨f.toClaimed, ?_, rfl⟩)
          rw [hp]
          refine List.mem_filter.2 ⟨List.mem_map_of_mem hf, ?_⟩
          simp [OutboxEvent.toClaimed, hrow, hprocessing]
        have hzero : s'.pendingOf f.id = 0 := by
          simp [State.pendingOf, hget, OutboxEvent.claimed]
        omega
  · rw [if_neg hsel] at hget
    rw [howes, List.count_eq_zero.2 hsel]
    refine ⟨?_, ?_, ?_⟩
    · simp [State.attemptsOf, hget]
    · simp [State.createdOf, hget]
    · simp [State.pendingOf, hget]

theorem record_counts {row updated : OutboxEvent} {x : Publisher}
    (hs' : s'.store = s.store.saveOutboxEvent row updated) (hup : updated.attempts = row.attempts)
    (hx : updated.status = .pending → x.failing row.id = 1) (e : Uuid) :
    s'.attemptsOf e = s.attemptsOf e ∧ s'.createdOf e = s.createdOf e ∧
      s'.pendingOf e ≤ s.pendingOf e + x.failing e := by
  have hget : s'.store.outbox.get e = _ := hs' ▸ outbox_get_saveOutboxEvent e
  split at hget
  · next heq =>
    subst heq
    refine ⟨?_, ?_, ?_⟩
    · rw [State.attemptsOf, State.attemptsOf, hget, Option.map_map]
      congr 2
      funext stored
      exact writeBack_attempts row updated stored hup
    · simp [State.createdOf, hget]
    · cases hstored : s.store.outbox.get row.id with
      | none => simp [State.pendingOf, hget, hstored]
      | some stored =>
        rw [hstored] at hget
        rw [pendingOf_of_get hget, pendingOf_of_get hstored]
        rcases writeBack_status row updated stored with hkept | hwritten
        · rw [hkept]
          exact Nat.le_add_right _ _
        · rw [hwritten]
          by_cases hpending : updated.status = .pending
          · rw [if_pos hpending, hx hpending]
            exact Nat.le_add_left _ _
          · rw [if_neg hpending]
            exact Nat.zero_le _
  · refine ⟨?_, ?_, ?_⟩
    · simp [State.attemptsOf, hget]
    · simp [State.createdOf, hget]
    · simp [State.pendingOf, hget]

theorem counts_of_publishes (h : s'.publishes = s.publishes) (e : Uuid) :
    s'.successesOf e = s.successesOf e ∧ s'.raisesOf e = s.raisesOf e := by
  unfold State.successesOf State.raisesOf
  rw [h]
  exact ⟨rfl, rfl⟩

theorem counts_of_outbox (h : s'.store.outbox = s.store.outbox) (e : Uuid) :
    s'.attemptsOf e = s.attemptsOf e ∧ s'.pendingOf e = s.pendingOf e ∧
      s'.createdOf e = s.createdOf e := by
  unfold State.attemptsOf State.pendingOf State.createdOf
  rw [h]
  exact ⟨rfl, rfl, rfl⟩

theorem counts_of_call {c : PublishCall} (h : s'.publishes = s.publishes ++ [c]) (e : Uuid) :
    s'.successesOf e = s.successesOf e + (if c.event = e ∧ c.raised = false then 1 else 0) ∧
      s'.raisesOf e = s.raisesOf e + if c.event = e ∧ c.raised = true then 1 else 0 := by
  unfold State.successesOf State.raisesOf
  simp [h, List.countP_append, List.countP_singleton]

theorem owes_cons {c : ClaimedOutboxEvent} {todo : List ClaimedOutboxEvent} {x y : Publisher}
    (hx : x.claims = c :: todo) (hy : y.claims = todo) (e : Uuid) :
    x.owes e = y.owes e + if c.id = e then 1 else 0 := by
  unfold Publisher.owes
  rw [hx, hy, List.countP_cons]
  simp

theorem balanced_claim {t₁ t₂ t₃ : Time} {locked : List Uuid} {N : Nat} (hN : p < N)
    (hb : Balanced s l e N) (h : publisherStep env s p (.claim t₁ t₂ t₃ locked) = some s') :
    Balanced s' (noteTakeovers l s (.publisher p (.claim t₁ t₂ t₃ locked)) s') e N := by
  obtain ⟨claimDeadline, hidle, hstore, hworking, hpublishes⟩ : ∃ claimDeadline,
      s.publishers p = .idle ∧
      s'.store = claimRows s.store
        (selectClaimable env.toSettings s.store t₁ claimDeadline locked) t₃ ∧
      s'.publishers p = .working ((selectClaimable env.toSettings s.store t₁ claimDeadline
        locked).map OutboxEvent.toClaimed) ∧ s'.publishes = s.publishes := by
    cases publisherStep_inv h with
    | claim hp =>
      refine ⟨_, hp, rfl, ?_, rfl⟩
      simp only [State.setPublisher, Function.update_self]
      rfl
  obtain ⟨hattempts, hcreated, hpending⟩ := claim_counts hstore hworking e
  obtain ⟨hsuccesses, hraises⟩ := counts_of_publishes hpublishes e
  have howes : (s.publishers p).owes e = 0 := by simp [hidle, Publisher.owes, Publisher.claims]
  have hfailing : (s'.publishers p).failing e = 0 := by rw [hworking]; rfl
  refine balanced_of_publisher hN hb (publisherStep_frame h).publishers (by omega) ?_
  simp only [noteTakeovers, List.count_append]
  omega

/-- A publish call uses up a claim; while it has raised, the publisher is failing. -/
theorem balanced_call {c : PublishCall} {N : Nat} (hN : p < N) (hb : Balanced s l e N)
    (hframe : ∀ q, q ≠ p → s'.publishers q = s.publishers q)
    (hpublishes : s'.publishes = s.publishes ++ [c]) (houtbox : s'.store.outbox = s.store.outbox)
    (howes : (s.publishers p).owes e =
      (s'.publishers p).owes e + if c.event = e then 1 else 0)
    (hfailing : (s'.publishers p).failing e = if c.event = e ∧ c.raised = true then 1 else 0) :
    Balanced s' l e N := by
  obtain ⟨hattempts, hpending, hcreated⟩ := counts_of_outbox houtbox e
  obtain ⟨hsuccesses, hraises⟩ := counts_of_call hpublishes e
  have hcases : (if c.event = e ∧ c.raised = false then 1 else 0) +
      (if c.event = e ∧ c.raised = true then 1 else 0) = if c.event = e then 1 else 0 := by
    cases c.raised <;> simp
  exact balanced_of_publisher hN hb hframe (by omega) (by omega)

theorem balanced_record {row updated : OutboxEvent} {N : Nat} (hN : p < N) (hb : Balanced s l e N)
    (hframe : ∀ q, q ≠ p → s'.publishers q = s.publishers q)
    (hpublishes : s'.publishes = s.publishes)
    (hstore : s'.store = s.store.saveOutboxEvent row updated)
    (hup : updated.attempts = row.attempts)
    (hpending : updated.status = .pending → (s.publishers p).failing row.id = 1)
    (howes : (s'.publishers p).owes e = (s.publishers p).owes e)
    (hfailing : (s'.publishers p).failing e = 0) : Balanced s' l e N := by
  obtain ⟨hattempts, hcreated, hle⟩ := record_counts hstore hup hpending e
  obtain ⟨hsuccesses, hraises⟩ := counts_of_publishes hpublishes e
  exact balanced_of_publisher hN hb hframe (by omega) (by omega)

theorem balanced_move {N : Nat} (hN : p < N) (hb : Balanced s l e N)
    (hframe : ∀ q, q ≠ p → s'.publishers q = s.publishers q)
    (hpublishes : s'.publishes = s.publishes) (houtbox : s'.store.outbox = s.store.outbox)
    (howes : (s'.publishers p).owes e ≤ (s.publishers p).owes e)
    (hfailing : (s'.publishers p).failing e = 0) : Balanced s' l e N := by
  obtain ⟨hattempts, hpending, hcreated⟩ := counts_of_outbox houtbox e
  obtain ⟨hsuccesses, hraises⟩ := counts_of_publishes hpublishes e
  exact balanced_of_publisher hN hb hframe (by omega) (by omega)

theorem balanced_publisher {b : PublisherAction} {N : Nat} (ht : Traced s) (hN : p < N)
    (hb : Balanced s l e N) (h : publisherStep env s p b = some s') :
    Balanced s' (noteTakeovers l s (.publisher p b) s') e N := by
  have hframe := (publisherStep_frame h).publishers
  cases publisherStep_inv h with
  | claim => exact balanced_claim hN hb h
  | skip hp | load hp =>
    refine balanced_move hN hb hframe rfl rfl ?_ ?_
    · simp [State.setPublisher, hp, Publisher.owes, Publisher.claims, List.countP_cons]
    · simp [State.setPublisher, Publisher.failing]
  | publish hp =>
    refine balanced_call hN hb hframe rfl rfl ?_ ?_
    · exact owes_cons (by rw [hp]; rfl) (by simp [State.setPublisher, Publisher.claims]) e
    · simp [State.setPublisher, Publisher.failing]
  | publishRaises hp =>
    refine balanced_call hN hb hframe rfl rfl ?_ ?_
    · exact owes_cons (by rw [hp]; rfl) (by simp [State.setPublisher, Publisher.claims]) e
    · simp [State.setPublisher, Publisher.failing, ht.loaded _ _ _ _ hp]
  | recordPublished hp =>
    refine balanced_record hN hb hframe rfl rfl rfl (fun h => by cases h) ?_ ?_
    · simp [State.setPublisher, hp, Publisher.owes, Publisher.claims]
    · simp [State.setPublisher, Publisher.failing]
  | recordRaised hp =>
    refine balanced_record hN hb hframe rfl rfl rfl (fun _ => ?_) ?_ ?_
    · simp [hp, Publisher.failing]
    · simp [State.setPublisher, hp, Publisher.owes, Publisher.claims]
    · simp [State.setPublisher, Publisher.failing]
  | done hp | crash =>
    refine balanced_move hN hb hframe rfl rfl ?_ ?_
    · simp [State.setPublisher, Publisher.owes, Publisher.claims]
    · simp [State.setPublisher, Publisher.failing]

/-! ## The invariant -/

theorem balanced_initial (now : Time) (e : Uuid) (N : Nat) :
    Balanced (State.initial now) [] e N where
  calls := by
    simp [State.total, State.initial, Publisher.owes, Publisher.claims, State.successesOf,
      State.raisesOf]
  claims := by
    simp [State.total, State.initial, Publisher.failing, State.attemptsOf, State.pendingOf,
      Store.empty]

theorem balanced_other {N : Nat} (hr : Referenced s) (ht : Traced s) (hb : Balanced s l e N)
    (h : step env s a = some s') (ha : ∀ p b, a ≠ .publisher p b)
    (hpublishers : s'.publishers = s.publishers) (hpublishes : s'.publishes = s.publishes) :
    Balanced s' l e N := by
  obtain ⟨hattempts, hpending⟩ := rows_of_other hr ht h ha e
  obtain ⟨hsuccesses, hraises⟩ := counts_of_publishes hpublishes e
  constructor
  · have hbefore := hb.calls
    rw [total_of_eq _ hpublishers]
    omega
  · have hbefore := hb.claims
    rw [total_of_eq _ hpublishers]
    omega

theorem balanced_step (hr : Referenced s) (ht : Traced s) (hb : ∀ N, Balanced s l e N)
    (h : step env s a = some s') (N : Nat) : Balanced s' (noteTakeovers l s a s') e N := by
  rcases step_party h with ⟨w, b, rfl, hw⟩ | ⟨p, b, rfl, hp⟩ | hf
  · have hframe := workerStep_frame hw
    exact balanced_other hr ht (hb N) h nofun hframe.publishers hframe.publishes
  · have hnext := balanced_publisher ht (show p < max N (p + 1) by omega) (hb _) hp
    exact hnext.of_le (le_max_left _ _)
  · cases a with
    | publisher p b =>
      have hnext := balanced_publisher ht (show p < max N (p + 1) by omega) (hb _) h
      exact hnext.of_le (le_max_left _ _)
    | worker | tick | request | cleaner | redisExpire =>
      exact balanced_other hr ht (hb N) h nofun hf.publishers hf.publishes

theorem balanced_reach {x : State × List Uuid}
    (h : (takeoverMachine env).Reach Machine.Always x) (e : Uuid) (N : Nat) :
    Balanced x.1 x.2 e N := by
  revert N
  refine Machine.Reach.induct_history (I := fun x => ∀ N, Balanced x.1 x.2 e N) ?_ ?_ h
  · rintro _ ⟨now, rfl⟩ N
    exact balanced_initial now e N
  · intro t l a t' ht hb _ hstep
    exact balanced_step (referenced_reach ht) (traced_reach ht) hb hstep

/-- In every run an event is published once, and once more for each takeover of a claim; while it
is still pending, only takeovers have published it. The calls never outnumber the attempts that its
row counts. -/
theorem duplicates_cost_takeovers {x : State × List Uuid}
    (h : (takeoverMachine env).Reach Machine.Always x) (e : Uuid) :
    x.1.successesOf e ≤ 1 + x.2.count e ∧
      (∀ row ∈ x.1.store.outbox, row.id = e → row.status = .pending →
        x.1.successesOf e ≤ x.2.count e) ∧
      ∀ row ∈ x.1.store.outbox, row.id = e → x.1.successesOf e + x.1.raisesOf e ≤ row.attempts := by
  have hb := balanced_reach h e 0
  have hcalls := hb.calls
  have hclaims := hb.claims
  have hcreated : x.1.createdOf e ≤ 1 := by
    unfold State.createdOf
    split <;> omega
  refine ⟨by omega, fun row hrow hid hpending => ?_, fun row hrow hid => ?_⟩
  · subst hid
    have hone := pendingOf_of_get (Table.get_of_mem hrow)
    rw [if_pos hpending] at hone
    omega
  · subst hid
    have hattempts : x.1.attemptsOf row.id = row.attempts := by
      simp [State.attemptsOf, Table.get_of_mem hrow]
    omega

/-- A publisher is slower than the claim timeout: two publishers publish the event, and one claim
was a takeover. -/
def Sample.slowPublisher : List Action :=
  creation ++ [.publisher 1 (.claim 0 0 0 []),
    .publisher 2 (.claim (sec 301) (sec 301) (sec 301) []), .publisher 1 .load,
    .publisher 2 .load, .publisher 1 .publish, .publisher 2 .publish]

theorem duplicates_cost_takeovers_slow : ∃ x : State × List Uuid,
    x.1.successesOf 3 = 2 ∧ x.2.count 3 = 1 ∧ x.1.successesOf 3 ≤ 1 + x.2.count 3 ∧
      ∀ row ∈ x.1.store.outbox, row.id = 3 →
        x.1.successesOf 3 + x.1.raisesOf 3 ≤ row.attempts := by
  obtain ⟨x, hrun, hx⟩ := Machine.Run.exists_of_exec_always (takeoverMachine Sample.env)
    (.initial 0, []) Sample.slowPublisher
    (fun x => x.1.successesOf 3 = 2 && x.2.count 3 = 1) (by decide)
  simp only [Bool.and_eq_true, decide_eq_true_eq] at hx
  have hreach : (takeoverMachine Sample.env).Reach Machine.Always x :=
    .run (.init ⟨⟨0, rfl⟩, rfl⟩) hrun
  obtain ⟨hle, -, hattempts⟩ := duplicates_cost_takeovers hreach 3
  exact ⟨x, hx.1, hx.2, hle, hattempts⟩

end NotificationSystem
