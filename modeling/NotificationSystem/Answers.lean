import NotificationSystem.Integrity
import NotificationSystem.Materialised

/-!
# What clients have been answered

A record answers repeated requests until it expires. The answers themselves have no such limit: a
client that was given a batch and a number of notifications keeps finding exactly these in the
database, after the record and the batch's key are gone.

* `Store.Made` — a batch is what a request asked for.
* `Answered` — the invariant: every batch was asked for, every answer names a batch.
* `answers_kept` — it holds in every reachable state.
-/

namespace NotificationSystem

open Lib

variable {env : Deployment} {s s' : State} {a : Action} {st st' : Store} {b b' : NotificationBatch}
  {batchId : Uuid} {q q' : Nat} {x x' : Request} {o : Outcome}

/-- The recipients of a batch's notifications, in the order in which they were inserted. -/
def Store.recipientsOf (st : Store) (batchId : Uuid) : List Int :=
  (st.notifications.rows.filter (·.batchId = batchId)).map (·.subscriberId)

/-- The batch is what the request `body` asked for: its fields, and one notification for each of
its recipients. -/
structure Store.Made (env : Deployment) (st : Store) (b : NotificationBatch)
    (body : BulkNotificationRequest) : Prop where
  channel : b.channel = body.channel
  type : b.type = body.type
  message : b.message = body.message
  requestHash : b.requestHash = some (env.requestHash body)
  recipients : st.recipientsOf b.id = distinctRecipients body.recipientIds

/-- The response names the batch and counts its notifications. -/
def Store.Answers (st : Store) (status : String) (b : NotificationBatch)
    (response : BulkNotificationResponse) : Prop :=
  response = ⟨b.id, status, (st.recipientsOf b.id).length⟩

/-! ## Batches stay as they were made -/

theorem recipientsOf_of_members (h : st'.members = st.members) :
    st'.recipientsOf batchId = st.recipientsOf batchId := by
  have key (st : Store) :
      st.recipientsOf batchId = (st.members.filter (·.1 = batchId)).map (·.2) := by
    simp [Store.recipientsOf, Store.members, List.filter_map, Function.comp_def]
  rw [key, h, ← key]

theorem length_recipientsOf : (st.recipientsOf batchId).length = st.batchSize batchId := by
  rw [Store.recipientsOf, List.length_map, Store.batchSize, List.countP_eq_length_filter]

/-- The batch `b'` of `st'` is the batch `b` of `st`, perhaps without its key. -/
structure Store.SameBatch (st : Store) (b : NotificationBatch) (st' : Store)
    (b' : NotificationBatch) : Prop where
  asCreated : b'.asCreated = b.asCreated
  key : ∀ key, b'.idempotencyKey = some key → b.idempotencyKey = some key
  recipients : st'.recipientsOf b'.id = st.recipientsOf b.id

theorem Store.SameBatch.id (h : st.SameBatch b st' b') : b'.id = b.id :=
  NotificationBatch.column_eq h.asCreated (·.id)

theorem Store.SameBatch.requestHash (h : st.SameBatch b st' b') :
    b'.requestHash = b.requestHash :=
  NotificationBatch.column_eq h.asCreated (·.requestHash)

theorem Store.SameBatch.made {body : BulkNotificationRequest} (h : st.SameBatch b st' b')
    (hb : st.Made env b body) : st'.Made env b' body := by
  refine ⟨?_, ?_, ?_, h.requestHash.trans hb.requestHash, h.recipients.trans hb.recipients⟩
  · exact (NotificationBatch.column_eq h.asCreated (·.channel)).trans hb.channel
  · exact (NotificationBatch.column_eq h.asCreated (·.type)).trans hb.type
  · exact (NotificationBatch.column_eq h.asCreated (·.message)).trans hb.message

theorem sameBatch_of_members (h : st'.members = st.members) : st.SameBatch b st' b :=
  ⟨rfl, fun _ hkey => hkey, recipientsOf_of_members h⟩

theorem sameBatch_released {selected : List IdempotencyKey}
    (h : st'.recipientsOf b.id = st.recipientsOf b.id) :
    st.SameBatch b st' (b.releasedBy selected) :=
  ⟨asCreated_releasedBy _, fun _ hkey => (releasedBy_of_key hkey).1 ▸ hkey,
    by rw [releasedBy_id, h]⟩

theorem recipientsOf_deleteExpired {selected : List IdempotencyKey} {t : Time} :
    (deleteExpired st selected t).recipientsOf batchId = st.recipientsOf batchId := by
  rw [Store.recipientsOf, deleteExpired_notifications]
  rfl

theorem Store.SameBatch.answers {status : String} {response : BulkNotificationResponse}
    (h : st.SameBatch b st' b') (hr : st.Answers status b response) :
    st'.Answers status b' response := by
  rw [Store.Answers, h.recipients, h.id]
  exact hr

section created

variable {request : BulkNotificationRequest} {key requestHash : String}
  {expired : Option IdempotencyKey} {expiresAt : Time} {ids : Nat → Uuid} {stamps : Nat → Time}
  {response : BulkNotificationResponse}

theorem recipientsOf_created (h : Created st request key requestHash expired expiresAt ids stamps
    st' response) (batchId : Uuid) :
    st'.recipientsOf batchId = st.recipientsOf batchId ++
      if batchId = ids 0 then distinctRecipients request.recipientIds else [] := by
  have hnew : ∀ n ∈ newNotifications request ids stamps, n.batchId = ids 0 := by
    intro n hn
    obtain ⟨i, r, -, rfl⟩ := mem_newNotifications hn
    rfl
  rw [Store.recipientsOf, h.notifications, List.filter_append, List.map_append]
  congr 1
  split
  · next heq =>
    rw [List.filter_eq_self.2 fun n hn => by simp [hnew n hn, heq], newNotifications_subscribers]
  · next hne =>
    rw [List.filter_eq_nil_iff.2 fun n hn => by simpa [hnew n hn] using Ne.symm hne]
    rfl

theorem recipientsOf_fresh (hfresh : ids 0 ∉ st.uuids) : st.recipientsOf (ids 0) = [] := by
  rw [← List.length_eq_zero_iff, length_recipientsOf, batchSize_fresh hfresh]

variable (hc : Created st request key requestHash expired expiresAt ids stamps st' response)
  (hfresh : ids 0 ∉ st.uuids)

include hc hfresh

theorem sameBatch_created (hb : b ∈ st.batches) :
    st.SameBatch b st' (b.releasedBy expired.toList) := by
  have hne : b.id ≠ ids 0 := fun heq => hfresh (heq ▸ mem_uuids_of_batch hb)
  exact sameBatch_released (by rw [recipientsOf_created hc, if_neg hne, List.append_nil])

theorem made_created :
    st'.Made env (newBatch request key (env.requestHash request) ids) request where
  channel := rfl
  type := rfl
  message := rfl
  requestHash := rfl
  recipients := by
    rw [show (newBatch request key (env.requestHash request) ids).id = ids 0 from rfl,
      recipientsOf_created hc, recipientsOf_fresh hfresh, if_pos rfl, List.nil_append]

theorem answers_created :
    st'.Answers "accepted" (newBatch request key requestHash ids) response := by
  rw [Store.Answers, show (newBatch request key requestHash ids).id = ids 0 from rfl,
    recipientsOf_created hc, recipientsOf_fresh hfresh, if_pos rfl, List.nil_append, hc.accepted]
  rfl

end created

/-! ## A step -/

theorem batch_after (hs : Recorded s) (h : step env s a = some s') (hb : b ∈ s.store.batches) :
    ∃ b' ∈ s'.store.batches, s.store.SameBatch b s'.store b' := by
  cases apiChange_of_step h with
  | quiet _ _ _ hbatches _ hmembers => exact ⟨b, hbatches ▸ hb, sameBatch_of_members hmembers⟩
  | select | stop => exact ⟨b, hb, sameBatch_of_members rfl⟩
  | @delete c t₂ selected =>
    refine ⟨b.releasedBy selected, ?_, sameBatch_released recipientsOf_deleteExpired⟩
    rw [Table.mem_def, rows_deleteExpired]
    exact List.mem_map_of_mem hb
  | request _ hchange =>
    rcases hs.request_store hchange with
      hstore | ⟨x, expired, expiresAt, ids, stamps, response, -, -, -, hfresh, hcom⟩
    · rw [hstore]
      exact ⟨b, hb, sameBatch_of_members rfl⟩
    · have hc := created_of_commit hcom
      exact ⟨_, (mem_created_batches hc).2 (.inl ⟨b, hb, rfl⟩),
        sameBatch_created hc (bulkIds_fresh hfresh (Nat.zero_le _)) hb⟩

/-- The batch was made for the request, whose key it may hold. -/
structure MadeFor (env : Deployment) (st : Store) (b : NotificationBatch) (x : Request) :
    Prop where
  made : st.Made env b x.body
  key : ∀ key, b.idempotencyKey = some key → key = x.key

theorem Store.SameBatch.madeFor (h : st.SameBatch b st' b') (hb : MadeFor env st b x) :
    MadeFor env st' b' x :=
  ⟨h.made hb.made, fun key hkey => hb.key key (h.key key hkey)⟩

/-- A batch was there before, or has just been made for a request. -/
theorem batch_before (hs : Recorded s) (h : step env s a = some s') (hb : b' ∈ s'.store.batches) :
    (∃ b ∈ s.store.batches, s.store.SameBatch b s'.store b') ∨
      ∃ q x, s.requests q = some x ∧ MadeFor env s'.store b' x := by
  cases apiChange_of_step h with
  | quiet _ _ _ hbatches _ hmembers =>
    exact .inl ⟨b', hbatches ▸ hb, sameBatch_of_members hmembers⟩
  | select | stop => exact .inl ⟨b', hb, sameBatch_of_members rfl⟩
  | @delete c t₂ selected =>
    rw [Table.mem_def, rows_deleteExpired] at hb
    obtain ⟨b, hmem, rfl⟩ := List.mem_map.1 hb
    exact .inl ⟨b, hmem, sameBatch_released recipientsOf_deleteExpired⟩
  | @request q _ _ _ hchange =>
    rcases hs.request_store hchange with
      hstore | ⟨x, expired, expiresAt, ids, stamps, response, hx, -, -, hfresh, hcom⟩
    · rw [hstore] at hb ⊢
      exact .inl ⟨b', hb, sameBatch_of_members rfl⟩
    · have hc := created_of_commit hcom
      have hnew : ids 0 ∉ s.store.uuids := bulkIds_fresh hfresh (Nat.zero_le _)
      rcases (mem_created_batches hc).1 hb with ⟨b, hmem, rfl⟩ | rfl
      · exact .inl ⟨b, hmem, sameBatch_created hc hnew hmem⟩
      · refine .inr ⟨q, x, hx, made_created hc hnew, fun key hkey => ?_⟩
        exact (Option.some.inj hkey).symm

/-- The response accepts the request, and the batch that it names is new. -/
structure Accepts (env : Deployment) (s s' : State) (x : Request)
    (response : BulkNotificationResponse) (b' : NotificationBatch) : Prop where
  mem : b' ∈ s'.store.batches
  answers : s'.store.Answers "accepted" b' response
  made : s'.store.Made env b' x.body
  fresh : ∀ b ∈ s.store.batches, b.id ≠ b'.id

/-- The response names the batch that holds the key, made for a request with the same
fingerprint. -/
structure Repeats (env : Deployment) (st : Store) (x : Request)
    (response : BulkNotificationResponse) (b : NotificationBatch) : Prop where
  mem : b ∈ st.batches
  answers : st.Answers "already_exists" b response
  key : b.idempotencyKey = some x.key
  requestHash : b.requestHash = some (env.requestHash x.body)

/-- The answer is no acceptance, and if it names a batch it does so from the record of the key. -/
def FromRecord (st : Store) (key requestHash : String) : Outcome → Prop
  | .accepted _ => False
  | .alreadyExists response => ∃ r stored, st.idempotencyKeys.get key = some r ∧
      r.requestHash = requestHash ∧ r.responsePayload = some stored ∧
      response = alreadyExists stored
  | _ => True

theorem fromRecord_of_read {cfg : Settings} {key requestHash : String} {t₁ t₂ : Time}
    (ho : (afterRead (reserveOrGet cfg st key requestHash t₁ t₂)).outcome? = some o) :
    FromRecord st key requestHash o := by
  have new {expired : Option IdempotencyKey}
      (ho : (afterRead (newRecord cfg expired t₂)).outcome? = some o) :
      FromRecord st key requestHash o := by
    unfold newRecord at ho
    split at ho <;> cases ho
    trivial
  unfold reserveOrGet at ho
  split at ho
  · exact new ho
  · next r hget =>
    split at ho
    · exact new ho
    · split at ho
      · cases ho
        trivial
      · next hhash =>
        split at ho
        · next stored hstored =>
          cases ho
          exact ⟨r, stored, hget, not_not.1 hhash, hstored, rfl⟩
        · cases ho

theorem fromRecord_of_find {key requestHash : String}
    (ho : (afterFind requestHash (findRecord st key)).outcome? = some o) :
    FromRecord st key requestHash o := by
  cases hget : findRecord st key with
  | none =>
    rw [hget] at ho
    cases ho
    trivial
  | some r =>
    rw [hget] at ho
    simp only [afterFind] at ho
    split at ho
    · cases ho
      trivial
    · next hhash =>
      split at ho
      · cases ho
        trivial
      · next stored hstored =>
        cases ho
        exact ⟨r, stored, hget, not_not.1 hhash, hstored, rfl⟩

/-- The request `x` has just been given the answer. -/
def Given (env : Deployment) (s s' : State) (x : Request) : Outcome → Prop
  | .accepted response => ∃ b', Accepts env s s' x response b'
  | .alreadyExists response => ∃ b, Repeats env s'.store x response b
  | _ => True

/-- A record answers with the batch that backs it. -/
theorem given_of_record (hs : Recorded s) (hstore : s'.store = s.store)
    (h : FromRecord s.store x.key (env.requestHash x.body) o) : Given env s s' x o := by
  cases o with
  | accepted => exact h.elim
  | alreadyExists response =>
    obtain ⟨r, stored, hget, hhash, hstored, rfl⟩ := h
    obtain ⟨b, hb, hbacks⟩ := hs.records r (Table.mem_of_get hget)
    rw [Given, hstore]
    refine ⟨b, hb, ?_, by rw [hbacks.key, Table.get_key hget], by rw [hbacks.requestHash, hhash]⟩
    rw [hbacks.response] at hstored
    cases hstored
    rw [Store.Answers, length_recipientsOf]
    rfl
  | conflict | inProgress | raised | crashed => trivial

theorem answer_of_step (hs : Recorded s) (h : step env s a = some s')
    (hx' : s'.requests q = some x') (ho : x'.phase.outcome? = some o) :
    (∃ x, s.requests q = some x ∧ x.key = x'.key ∧ x.body = x'.body ∧
        x.phase.outcome? = some o) ∨
      (∃ c, a = .request q c) ∧ Given env s s' x' o := by
  cases apiChange_of_step h with
  | quiet _ hrequests =>
    rw [hrequests] at hx'
    exact .inl ⟨x', hx', rfl, rfl, ho⟩
  | select | stop | delete => exact .inl ⟨x', hx', rfl, rfl, ho⟩
  | @request p c _ _ hchange _ hothers =>
    by_cases hq : q = p
    · subst hq
      cases hchange with
      | submitted _ _ hnew =>
        obtain rfl := Option.some.inj (hnew.symm.trans hx')
        cases ho
      | refused _ _ hnew =>
        obtain rfl := Option.some.inj (hnew.symm.trans hx')
        cases ho
        exact .inr ⟨⟨_, rfl⟩, trivial⟩
      | @read r _ _ _ _ _ _ _ _ hnew hstore =>
        obtain rfl := Option.some.inj (hnew.symm.trans hx')
        have hrecord : FromRecord s.store r.key (env.requestHash r.body) o :=
          fromRecord_of_read ho
        exact .inr ⟨⟨_, rfl⟩, given_of_record hs hstore hrecord⟩
      | @committed x reservation ids stamps response _ hx hphase hfresh hcom hnew =>
        obtain rfl := Option.some.inj (hnew.symm.trans hx')
        cases ho
        obtain ⟨expired, expiresAt, rfl, -⟩ := hs.reservation hx hphase
        have hc := created_of_commit hcom
        have hfree : ids 0 ∉ s.store.uuids := bulkIds_fresh hfresh (Nat.zero_le _)
        refine .inr ⟨⟨_, rfl⟩, _, (mem_created_batches hc).2 (.inr rfl), answers_created hc hfree,
          made_created hc hfree, fun b hb heq => ?_⟩
        exact hfree ((show b.id = ids 0 from heq) ▸ mem_uuids_of_batch hb)
      | rejected _ _ _ _ _ hnew =>
        obtain rfl := Option.some.inj (hnew.symm.trans hx')
        refine .inr ⟨⟨_, rfl⟩, ?_⟩
        simp only at ho
        split at ho <;> cases ho
        trivial
      | @found r _ _ _ hnew hstore =>
        obtain rfl := Option.some.inj (hnew.symm.trans hx')
        have hrecord : FromRecord s.store r.key (env.requestHash r.body) o :=
          fromRecord_of_find ho
        exact .inr ⟨⟨_, rfl⟩, given_of_record hs hstore hrecord⟩
      | aborted _ _ hnew =>
        obtain rfl := Option.some.inj (hnew.symm.trans hx')
        cases ho
        exact .inr ⟨⟨_, rfl⟩, trivial⟩
      | released _ hx hdecided hphase hnew =>
        obtain rfl := Option.some.inj (hnew.symm.trans hx')
        exact .inl ⟨_, hx, rfl, rfl, hdecided.trans (hphase.symm.trans ho)⟩
      | crashed _ hnew =>
        obtain rfl := Option.some.inj (hnew.symm.trans hx')
        cases ho
        exact .inr ⟨⟨_, rfl⟩, trivial⟩
    · rw [hothers q hq] at hx'
      exact .inl ⟨x', hx', rfl, rfl, ho⟩

/-! ## The invariant -/

/-- The batch was made for a request of the same key and with the same fingerprint as `x`. -/
def RepeatOf (env : Deployment) (s : State) (b : NotificationBatch) (x : Request) : Prop :=
  ∃ p y, s.requests p = some y ∧ y.key = x.key ∧
    env.requestHash y.body = env.requestHash x.body ∧ s.store.Made env b y.body

/-- Every batch was asked for, every answer names a batch, and no batch was accepted twice. -/
structure Answered (env : Deployment) (s : State) : Prop where
  made : ∀ b ∈ s.store.batches, ∃ q x, s.requests q = some x ∧ MadeFor env s.store b x
  accepted : ∀ q x response, s.requests q = some x →
    x.phase.outcome? = some (.accepted response) →
    ∃ b ∈ s.store.batches, s.store.Answers "accepted" b response ∧ s.store.Made env b x.body
  repeated : ∀ q x response, s.requests q = some x →
    x.phase.outcome? = some (.alreadyExists response) →
    ∃ b ∈ s.store.batches, s.store.Answers "already_exists" b response ∧ RepeatOf env s b x
  distinct : ∀ q q' x x' response response', s.requests q = some x → s.requests q' = some x' →
    x.phase.outcome? = some (.accepted response) →
    x'.phase.outcome? = some (.accepted response') → q ≠ q' →
    response.batchId ≠ response'.batchId

theorem answers_batchId {status : String} {response : BulkNotificationResponse}
    (h : st.Answers status b response) : response.batchId = b.id :=
  congrArg BulkNotificationResponse.batchId h

theorem answered_initial (now : Time) : Answered env (State.initial now) where
  made _ hb := absurd hb Table.not_mem_empty
  accepted _ _ _ hx := by cases hx
  repeated _ _ _ hx := by cases hx
  distinct _ _ _ _ _ _ hx := by cases hx

theorem answered_step (hs : Recorded s) (hi : Answered env s) (h : step env s a = some s') :
    Answered env s' := by
  have made : ∀ b' ∈ s'.store.batches, ∃ q x, s'.requests q = some x ∧
      MadeFor env s'.store b' x := by
    intro b' hb'
    have later {q : Nat} {x : Request} (hx : s.requests q = some x)
        (hmade : MadeFor env s'.store b' x) :
        ∃ q x, s'.requests q = some x ∧ MadeFor env s'.store b' x := by
      obtain ⟨x', hx', hkey, hbody⟩ := request_keeps h hx
      exact ⟨q, x', hx', hbody ▸ hmade.made, hkey ▸ hmade.key⟩
    rcases batch_before hs h hb' with ⟨b, hb, hsame⟩ | ⟨q, x, hx, hmade⟩
    · obtain ⟨q, x, hx, hmade⟩ := hi.made b hb
      exact later hx (hsame.madeFor hmade)
    · exact later hx hmade
  refine ⟨made, fun q x' response hx' ho => ?_, fun q x' response hx' ho => ?_, ?_⟩
  · rcases answer_of_step hs h hx' ho with ⟨x, hx, -, hbody, hold⟩ | ⟨-, b', hnew⟩
    · obtain ⟨b, hb, hanswers, hmade⟩ := hi.accepted q x response hx hold
      obtain ⟨b', hb', hsame⟩ := batch_after hs h hb
      exact ⟨b', hb', hsame.answers hanswers, hsame.made (hbody ▸ hmade)⟩
    · exact ⟨b', hnew.mem, hnew.answers, hnew.made⟩
  · rcases answer_of_step hs h hx' ho with ⟨x, hx, hkey, hbody, hold⟩ | ⟨-, b, hnew⟩
    · obtain ⟨b, hb, hanswers, p, y, hy, hykey, hhash, hmade⟩ := hi.repeated q x response hx hold
      obtain ⟨b', hb', hsame⟩ := batch_after hs h hb
      obtain ⟨y', hy', hykey', hybody⟩ := request_keeps h hy
      exact ⟨b', hb', hsame.answers hanswers, p, y', hy', hykey'.trans (hykey.trans hkey),
        by rw [hybody, hhash, hbody], hybody ▸ hsame.made hmade⟩
    · obtain ⟨p, y, hy, hmade⟩ := made b hnew.mem
      have hhash := hmade.made.requestHash.symm.trans hnew.requestHash
      exact ⟨b, hnew.mem, hnew.answers, p, y, hy, (hmade.key _ hnew.key).symm,
        Option.some.inj hhash, hmade.made⟩
  · -- a new batch has no old one's id
    have apart {p : Nat} {y x' : Request} {old new : BulkNotificationResponse}
        (hy : s.requests p = some y) (hold : y.phase.outcome? = some (.accepted old))
        (hnew : Given env s s' x' (.accepted new)) : old.batchId ≠ new.batchId := by
      obtain ⟨b, hb, hanswers, -⟩ := hi.accepted p y old hy hold
      obtain ⟨b', hb'⟩ := hnew
      rw [answers_batchId hanswers, answers_batchId hb'.answers]
      exact hb'.fresh b hb
    intro q q' x x' response response' hx hx' ho ho' hne
    rcases answer_of_step hs h hx ho with ⟨y, hy, -, -, hold⟩ | ⟨⟨c, hc⟩, hnew⟩ <;>
      rcases answer_of_step hs h hx' ho' with ⟨y', hy', -, -, hold'⟩ | ⟨⟨c', hc'⟩, hnew'⟩
    · exact hi.distinct q q' y y' response response' hy hy' hold hold' hne
    · exact apart hy hold hnew'
    · exact (apart hy' hold' hnew).symm
    · rw [hc] at hc'
      cases hc'
      exact absurd rfl hne

/-- **What clients have been answered stays true**, in every reachable state: a request that was
accepted finds the batch and the notifications that it asked for, no two requests were accepted
for one batch, and what a repeated request was told is about the batch of a request of its key
with its fingerprint. -/
theorem answers_kept {ok : State → Action → Prop} (h : (machine env).Reach ok s) :
    Answered env s := by
  refine Machine.Reach.induct ?_ ?_ h
  · rintro _ ⟨now, rfl⟩
    exact answered_initial now
  · exact fun t a t' ht hi _ hstep => answered_step (recorded_reach ht) hi hstep

/-- A request is repeated, and then its record expires and is deleted: both answers stay true. -/
theorem answers_kept_expired : ∃ s : State,
    s.store.idempotencyKeys.rows = [] ∧
      (s.requests 1).map (·.phase) = some (.releasing (.alreadyExists ⟨0, "already_exists", 1⟩)) ∧
      Answered Sample.env s := by
  obtain ⟨s, hrun, hs⟩ := Machine.Run.exists_of_exec_always (machine Sample.env) (.initial 0)
    (Sample.creation ++ [.request 0 .getLock, .request 0 .deleteLock,
      .request 1 (.submit Sample.request "key"), .request 1 (.read 0 0),
      .cleaner 0 (.select (Sample.sec 86400)), .cleaner 0 (.delete (Sample.sec 86400))])
    (fun s => s.store.idempotencyKeys.rows = [] && (s.requests 1).map (·.phase) =
      some (.releasing (.alreadyExists ⟨0, "already_exists", 1⟩))) (by decide)
  rw [Bool.and_eq_true, decide_eq_true_eq, decide_eq_true_eq] at hs
  exact ⟨s, hs.1, hs.2, answers_kept ⟨_, _, ⟨0, rfl⟩, hrun⟩⟩

end NotificationSystem
