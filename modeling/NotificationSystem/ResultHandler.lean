import NotificationSystem.Attempts

/-!
# Applying a provider result

`RetryPolicy` and `ProviderResultHandler`. `apply` runs in the session that `reserve` used:
the sessions do not expire on commit, so its `SELECT … FOR UPDATE` locks the stored row but
returns the instance that `reserve` left, here `loaded`. The guard and every decision read
that instance, and the commit writes the columns that differ from it.
-/

namespace NotificationSystem

open Lib

structure RetryDecision where
  shouldRetry : Bool
  delaySeconds : Option Int
  deriving DecidableEq, Repr

structure RetryPolicy where
  maxRetries : Int
  backoffSeconds : List Int

/-- `RetryPolicy.decide`. -/
def RetryPolicy.decide (policy : RetryPolicy) (attempts : Nat) : Except Raised RetryDecision :=
  if policy.maxRetries ≤ attempts then .ok ⟨false, none⟩
  else
    let index : Int := max 0 (min ((attempts : Int) - 1) ((policy.backoffSeconds.length : Int) - 1))
    match policy.backoffSeconds[index.toNat]? with
    | none => .error .indexError
    | some delay => .ok ⟨true, some delay⟩

/-- The policy of a `ProviderResultHandler`. -/
def Settings.retryPolicy (cfg : Settings) : RetryPolicy := ⟨cfg.maxRetries, cfg.retryBackoffList⟩

/-- The instance after `_mark_delivered`. -/
def Notification.markedDelivered (n : Notification) (result : ProviderResult) : Notification :=
  { n with
    status := .delivered
    providerMessageId := result.providerMessageId
    lastError := none
    processingLockUntil := none }

/-- `_mark_delivered`. -/
def markDelivered (st : Store) (loaded : Notification) (result : ProviderResult) (t : Time) :
    Store :=
  (st.saveNotification loaded (loaded.markedDelivered result)).addHistory
    ⟨loaded.id, .delivered, none, t⟩

/-- The instance after `apply` has recorded the error of a result that is not a delivery. -/
def Notification.withError (n : Notification) (result : ProviderResult) : Notification :=
  { n with
    lastError := result.errorMessage
    processingLockUntil := none }

/-- The instance that the retry branch leaves in the session. -/
def Notification.awaitingRetry (n : Notification) (result : ProviderResult) (lockUntil : Time) :
    Notification :=
  { n.withError result with processingLockUntil := some lockUntil }

/-- The instance that `_drop` leaves in the session. -/
def Notification.droppedByResult (n : Notification) (result : ProviderResult) : Notification :=
  { n.withError result with status := .dropped }

/-- The decision of `_schedule_retry_if_needed`: the delay and the new lock, at the reading
`now`, or `none` when the result may not be retried. -/
def retryUntil (cfg : Settings) (attempts : Nat) (result : ProviderResult) (now : Time) :
    Except Raised (Option (Int × Time)) :=
  if result.errorType ≠ some .temporary then .ok none
  else
    match cfg.retryPolicy.decide attempts with
    | .error e => .error e
    | .ok ⟨false, _⟩ => .ok none
    | .ok ⟨true, none⟩ => .ok none
    | .ok ⟨true, some delay⟩ =>
      match addSeconds now delay with
      | none => .error .overflowError
      | some lockUntil => .ok (some (delay, lockUntil))

/-- The branch of `_schedule_retry_if_needed` that schedules a retry. -/
def scheduleRetry (st : Store) (loaded : Notification) (payload : Payload)
    (result : ProviderResult) (delay : Int) (lockUntil t₂ : Time) (ids : EventIds) :
    Except Raised Store :=
  let n := loaded.awaitingRetry result lockUntil
  addOutboxEvent (st.saveNotification loaded n)
    (retryEvent n payload delay n.processingLockUntil result.errorMessage none t₂ ids)

/-- `_drop`. -/
def drop (st : Store) (loaded : Notification) (payload : Payload) (result : ProviderResult)
    (t₁ t₂ : Time) (ids : EventIds) : Except Raised Store :=
  let n := loaded.droppedByResult result
  addOutboxEvent
    ((st.saveNotification loaded n).addHistory ⟨loaded.id, .dropped, result.errorMessage, t₂⟩)
    (failedEvent n (some payload) result.errorMessage t₁ t₂ ids)

/-- The columns hold what a result writes: the `provider_message_id` of a delivery, and otherwise
the error in `last_error` and the history. -/
def ProviderResult.storable (result : ProviderResult) : Bool :=
  if result.success && result.delivered then result.providerMessageId.all (storableString 255)
  else result.errorMessage.all storableText

/-- The commit at the end of `apply`. -/
def commitResult (result : ProviderResult) (st : Except Raised Store) : Except Raised Store :=
  match st with
  | .error e => .error e
  | .ok st => if result.storable then .ok st else .error .dataError

/-- `apply`. It reads the clock for the new lock or the failed event's payload (`t₁`) and for
the `created_at` defaults of the new rows (`t₂`). -/
def apply (cfg : Settings) (st : Store) (notificationId : Uuid) (payload : Payload)
    (loaded : Notification) (result : ProviderResult) (t₁ t₂ : Time) (ids : EventIds) :
    Except Raised Store :=
  match st.notifications.get notificationId with
  | none => .error .noResultFound
  | some _ =>
    if loaded.isFinal then .ok st
    else if result.success && result.delivered then
      commitResult result (.ok (markDelivered st loaded result t₂))
    else
      match retryUntil cfg loaded.attempts result t₁ with
      | .error e => .error e
      | .ok (some (delay, lockUntil)) =>
        commitResult result (scheduleRetry st loaded payload result delay lockUntil t₂ ids)
      | .ok none => commitResult result (drop st loaded payload result t₁ t₂ ids)

/-! ## What `apply` does -/

/-- The transactions of an `apply` that does not raise. -/
inductive Applied (cfg : Settings) (st : Store) (id : Uuid) (payload : Payload)
    (loaded : Notification) (result : ProviderResult) (t₁ t₂ : Time) (ids : EventIds) :
    Store → Prop
  | guarded : loaded.isFinal = true → Applied cfg st id payload loaded result t₁ t₂ ids st
  | delivered : loaded.isFinal = false → (result.success && result.delivered) = true →
      result.storable = true → Applied cfg st id payload loaded result t₁ t₂ ids
        ((st.saveNotification loaded (loaded.markedDelivered result)).addHistory
          ⟨loaded.id, .delivered, none, t₂⟩)
  | retried {delay : Int} {lockUntil : Time} {outbox : Table OutboxEvent.id} :
      loaded.isFinal = false → (result.success && result.delivered) = false →
      retryUntil cfg loaded.attempts result t₁ = .ok (some (delay, lockUntil)) →
      st.outbox.insert? (retryEvent (loaded.awaitingRetry result lockUntil) payload delay
        (some lockUntil) result.errorMessage none t₂ ids) = some outbox →
      result.storable = true → Applied cfg st id payload loaded result t₁ t₂ ids
        { st.saveNotification loaded (loaded.awaitingRetry result lockUntil) with outbox }
  | dropped {outbox : Table OutboxEvent.id} :
      loaded.isFinal = false → (result.success && result.delivered) = false →
      retryUntil cfg loaded.attempts result t₁ = .ok none →
      st.outbox.insert? (failedEvent (loaded.droppedByResult result) (some payload)
        result.errorMessage t₁ t₂ ids) = some outbox → result.storable = true →
      Applied cfg st id payload loaded result t₁ t₂ ids
        { (st.saveNotification loaded (loaded.droppedByResult result)).addHistory
            ⟨loaded.id, .dropped, result.errorMessage, t₂⟩ with outbox }

theorem commitResult_ok {result : ProviderResult} {x : Except Raised Store} {st : Store}
    (h : commitResult result x = .ok st) : x = .ok st ∧ result.storable = true := by
  unfold commitResult at h
  split at h
  · cases h
  · split at h
    · next hfits =>
      cases h
      exact ⟨rfl, hfits⟩
    · cases h

theorem apply_ok {cfg : Settings} {st st' : Store} {id : Uuid} {payload : Payload}
    {loaded : Notification} {result : ProviderResult} {t₁ t₂ : Time} {ids : EventIds}
    (h : apply cfg st id payload loaded result t₁ t₂ ids = .ok st') :
    Applied cfg st id payload loaded result t₁ t₂ ids st' := by
  unfold apply at h
  split at h
  · cases h
  · split at h
    · next hfin =>
      cases h
      exact .guarded hfin
    · next hfin =>
      rw [Bool.not_eq_true] at hfin
      split at h
      · next hdel =>
        obtain ⟨heq, hfits⟩ := commitResult_ok h
        cases heq
        exact .delivered hfin hdel hfits
      · next hdel =>
        rw [Bool.not_eq_true] at hdel
        split at h
        · cases h
        · next delay lockUntil hretry =>
          obtain ⟨heq, hfits⟩ := commitResult_ok h
          obtain ⟨outbox, hins, rfl⟩ := addOutboxEvent_ok heq
          exact .retried hfin hdel hretry hins hfits
        · next hretry =>
          obtain ⟨heq, hfits⟩ := commitResult_ok h
          obtain ⟨outbox, hins, rfl⟩ := addOutboxEvent_ok heq
          exact .dropped hfin hdel hretry hins hfits

/-! ## When a retry is scheduled -/

/-- The result may be retried, and the policy's delay sets the lock `lockUntil`. -/
def Settings.RetryLock (cfg : Settings) (attempts : Nat) (result : ProviderResult)
    (now lockUntil : Time) : Prop :=
  result.errorType = some .temporary ∧
    ∃ delay, cfg.retryPolicy.decide attempts = .ok ⟨true, some delay⟩ ∧
      addSeconds now delay = some lockUntil

/-- `_schedule_retry_if_needed` raises: the error may be retried, but the policy has no delay
for it, or the delay leads past the last `datetime`. -/
def Settings.RetryRaises (cfg : Settings) (attempts : Nat) (result : ProviderResult)
    (now : Time) : Prop :=
  (result.success && result.delivered) = false ∧ result.errorType = some .temporary ∧
    ((∃ e, cfg.retryPolicy.decide attempts = .error e) ∨
      ∃ delay, cfg.retryPolicy.decide attempts = .ok ⟨true, some delay⟩ ∧
        addSeconds now delay = none)

/-- The delay after attempt `k`: the `k`-th entry of the backoff list, or the last one where
the list is shorter. -/
def Settings.backoffEntry (cfg : Settings) (k : Nat) : Option Int :=
  if k ≤ cfg.retryBackoffList.length then cfg.retryBackoffList[k - 1]?
  else cfg.retryBackoffList.getLast?

section retry

variable {cfg : Settings} {attempts : Nat} {result : ProviderResult} {now lockUntil : Time}
  {delay : Int}

theorem decide_of_lt (hne : cfg.retryBackoffList ≠ []) (hpos : 0 < attempts)
    (hlt : (attempts : Int) < cfg.maxRetries) :
    ∃ delay, cfg.backoffEntry attempts = some delay ∧
      cfg.retryPolicy.decide attempts = .ok ⟨true, some delay⟩ := by
  have hlen := List.length_pos_iff.2 hne
  have hindex : (max 0 (min ((attempts : Int) - 1)
      ((cfg.retryBackoffList.length : Int) - 1))).toNat =
      min (attempts - 1) (cfg.retryBackoffList.length - 1) := by omega
  obtain ⟨delay, hdelay⟩ : ∃ delay, cfg.backoffEntry attempts = some delay := by
    unfold Settings.backoffEntry
    split
    · exact ⟨_, List.getElem?_eq_getElem (by omega)⟩
    · exact ⟨_, List.getLast?_eq_some_getLast hne⟩
  have hentry : cfg.retryBackoffList[min (attempts - 1) (cfg.retryBackoffList.length - 1)]? =
      cfg.backoffEntry attempts := by
    unfold Settings.backoffEntry
    split
    · rw [min_eq_left (by omega)]
    · rw [min_eq_right (by omega), List.getLast?_eq_getElem?]
  refine ⟨delay, hdelay, ?_⟩
  simp only [RetryPolicy.decide, Settings.retryPolicy, if_neg (not_le.2 hlt), hindex, hentry,
    hdelay]

theorem decide_ne_error (hne : cfg.retryBackoffList ≠ []) (attempts : Nat) (e : Raised) :
    cfg.retryPolicy.decide attempts ≠ .error e := by
  have hlen := List.length_pos_iff.2 hne
  unfold RetryPolicy.decide
  split
  · nofun
  · simp only [Settings.retryPolicy]
    rw [List.getElem?_eq_getElem (by omega)]
    nofun

theorem retryUntil_eq_some
    (h : retryUntil cfg attempts result now = .ok (some (delay, lockUntil))) :
    result.errorType = some .temporary ∧
      cfg.retryPolicy.decide attempts = .ok ⟨true, some delay⟩ ∧
        addSeconds now delay = some lockUntil := by
  unfold retryUntil at h
  split at h
  · cases h
  · next htemp =>
    split at h
    · cases h
    · cases h
    · cases h
    · next d hd =>
      split at h
      · cases h
      · next hadd =>
        cases h
        exact ⟨not_not.1 htemp, hd, hadd⟩

/-- A delay that the policy decides on is one of the configured ones. -/
theorem mem_backoff_of_decide (h : cfg.retryPolicy.decide attempts = .ok ⟨true, some delay⟩) :
    delay ∈ cfg.retryBackoffList := by
  unfold RetryPolicy.decide at h
  split at h
  · cases h
  · simp only [Settings.retryPolicy] at h
    split at h
    · cases h
    · next d hd =>
      cases h
      exact List.mem_of_getElem? hd

theorem lt_maxRetries_of_retryUntil
    (h : retryUntil cfg attempts result now = .ok (some (delay, lockUntil))) :
    (attempts : Int) < cfg.maxRetries := by
  obtain ⟨-, hdecide, -⟩ := retryUntil_eq_some h
  by_contra hge
  simp [RetryPolicy.decide, Settings.retryPolicy, not_lt.1 hge] at hdecide

theorem retryUntil_ne_none (htemp : result.errorType = some .temporary)
    (hlt : (attempts : Int) < cfg.maxRetries) :
    retryUntil cfg attempts result now ≠ .ok none := by
  have hdecide : (∃ e, cfg.retryPolicy.decide attempts = .error e) ∨
      ∃ delay, cfg.retryPolicy.decide attempts = .ok ⟨true, some delay⟩ := by
    cases hd : cfg.retryPolicy.decide attempts with
    | error e => exact .inl ⟨e, rfl⟩
    | ok decision =>
      unfold RetryPolicy.decide at hd
      rw [if_neg (show ¬ cfg.retryPolicy.maxRetries ≤ attempts from not_le.2 hlt)] at hd
      dsimp only at hd
      split at hd <;> cases hd
      exact .inr ⟨_, rfl⟩
  unfold retryUntil
  rw [if_neg (not_not.2 htemp)]
  rcases hdecide with ⟨e, he⟩ | ⟨delay, hd⟩
  · rw [he]
    nofun
  · rw [hd]
    dsimp only
    split <;> nofun

theorem retryLock_of_retryUntil
    (h : retryUntil cfg attempts result now = .ok (some (delay, lockUntil))) :
    cfg.RetryLock attempts result now lockUntil := by
  obtain ⟨htemp, hd, hadd⟩ := retryUntil_eq_some h
  exact ⟨htemp, delay, hd, hadd⟩

theorem raises_of_retryUntil {e : Raised} (hdel : (result.success && result.delivered) = false)
    (h : retryUntil cfg attempts result now = .error e) : cfg.RetryRaises attempts result now := by
  unfold retryUntil at h
  split at h
  · cases h
  · next htemp =>
    refine ⟨hdel, not_not.1 htemp, ?_⟩
    split at h
    · next he => exact .inl ⟨_, he⟩
    · cases h
    · cases h
    · next delay hd =>
      split at h
      · next hadd => exact .inr ⟨delay, hd, hadd⟩
      · cases h

theorem retryUntil_of_raises (h : cfg.RetryRaises attempts result now) :
    ∃ e, retryUntil cfg attempts result now = .error e := by
  obtain ⟨-, htemp, ⟨e, he⟩ | ⟨delay, hd, hadd⟩⟩ := h
  · exact ⟨e, by simp [retryUntil, htemp, he]⟩
  · exact ⟨.overflowError, by simp [retryUntil, htemp, hd, hadd]⟩

end retry

end NotificationSystem
