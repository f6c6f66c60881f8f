import NotificationSystem.Lib.History
import NotificationSystem.Timely
import NotificationSystem.Wire

/-!
# The mock providers

`app/providers/mock.py` and `factory.py`: a provider answers as the mode of its channel says. Each
worker process builds its own, and loses it in a crash. The outcomes of the notifications of a
channel are therefore what the mode allows, whatever else happens.

* `ConfigurableMockProvider.send`, `send_cases` — the answers of a provider.
* `mockMachine`, `Mocked` — the system beside the providers of its workers.
* `mock_outcomes` — what a mode allows.
* `once_never_drops` — providers that fail once with a notification do not lose it.
-/

namespace NotificationSystem

open Lib

inductive ProviderMode
  | success
  | slowSuccess
  | temporaryErrorOnce
  | temporaryErrorAlways
  | permanentError
  | random
  deriving DecidableEq, Repr

/-- `sms_provider_mode` and `email_provider_mode`. -/
structure ProviderModes where
  sms : ProviderMode := .success
  email : ProviderMode := .success

structure ConfigurableMockProvider where
  name : String
  mode : ProviderMode := .success
  calls : List Uuid := []
  temporaryFailures : List Uuid := []
  deriving DecidableEq, Repr

namespace ConfigurableMockProvider

/-- `_success`. -/
def succeeded (p : ConfigurableMockProvider) (uuid : Uuid) : ProviderResult where
  success := true
  delivered := true
  providerMessageId := some (p.name ++ "-mock-" ++ uuidStr uuid)

def failure (p : ConfigurableMockProvider) (errorType : ProviderErrorType) (reason : String) :
    ProviderResult where
  success := false
  delivered := false
  errorType := some errorType
  errorMessage := some (p.name ++ reason)

/-- `send`: the answer, and the provider after it. It may draw whether `random.random()` is below
0.2, and the uuid of a success. -/
def send (p : ConfigurableMockProvider) (key : Uuid) (unlucky : Bool) (uuid : Uuid) :
    ProviderResult × ConfigurableMockProvider :=
  let q := { p with calls := p.calls ++ [key] }
  match p.mode with
  | .success | .slowSuccess => (p.succeeded uuid, q)
  | .temporaryErrorOnce =>
    if key ∈ p.temporaryFailures then (p.succeeded uuid, q)
    else
      (p.failure .temporary " temporary error",
        { q with temporaryFailures := key :: p.temporaryFailures })
  | .temporaryErrorAlways => (p.failure .temporary " temporary error", q)
  | .permanentError => (p.failure .permanent " permanent error", q)
  | .random =>
    if unlucky then (p.failure .temporary " random temporary error", q) else (p.succeeded uuid, q)

end ConfigurableMockProvider

/-- `build_provider`. -/
def buildProvider (modes : ProviderModes) : NotificationChannel → ConfigurableMockProvider
  | .sms => { name := "sms", mode := modes.sms }
  | .email => { name := "email", mode := modes.email }

/-- The error of a mode's failures. -/
def ProviderMode.error? : ProviderMode → Option (ProviderErrorType × String)
  | .success | .slowSuccess => none
  | .temporaryErrorOnce | .temporaryErrorAlways => some (.temporary, " temporary error")
  | .permanentError => some (.permanent, " permanent error")
  | .random => some (.temporary, " random temporary error")

/-- The mode has successes. -/
def ProviderMode.delivers : ProviderMode → Bool
  | .temporaryErrorAlways | .permanentError => false
  | .success | .slowSuccess | .temporaryErrorOnce | .random => true

section send

variable {p : ConfigurableMockProvider} {key uuid : Uuid} {unlucky : Bool}

theorem send_cases (p : ConfigurableMockProvider) (key : Uuid) (unlucky : Bool) (uuid : Uuid) :
    (p.mode.delivers = true ∧ (p.send key unlucky uuid).1 = p.succeeded uuid) ∨
    ∃ errorType reason, p.mode.error? = some (errorType, reason) ∧
      (p.send key unlucky uuid).1 = p.failure errorType reason := by
  unfold ConfigurableMockProvider.send
  cases hmode : p.mode with
  | success | slowSuccess => exact .inl ⟨rfl, rfl⟩
  | temporaryErrorOnce =>
    by_cases hkey : key ∈ p.temporaryFailures
    · exact .inl ⟨rfl, by simp [hkey]⟩
    · exact .inr ⟨.temporary, " temporary error", rfl, by simp [hkey]⟩
  | temporaryErrorAlways => exact .inr ⟨.temporary, " temporary error", rfl, rfl⟩
  | permanentError => exact .inr ⟨.permanent, " permanent error", rfl, rfl⟩
  | random =>
    cases unlucky with
    | true => exact .inr ⟨.temporary, " random temporary error", rfl, rfl⟩
    | false => exact .inl ⟨rfl, rfl⟩

theorem send_after : (p.send key unlucky uuid).2 = (p.send key false 0).2 := by
  unfold ConfigurableMockProvider.send
  cases p.mode <;> split_ifs <;> simp

theorem send_built : (p.send key unlucky uuid).2.name = p.name ∧
    (p.send key unlucky uuid).2.mode = p.mode := by
  unfold ConfigurableMockProvider.send
  cases p.mode <;> simp <;> split_ifs <;> simp

end send

/-! ## The system with its providers -/

/-- The providers of each worker process. -/
abbrev Providers := Nat → NotificationChannel → ConfigurableMockProvider

variable {env : Deployment} {modes : ProviderModes} {s s' : State} {a : Action} {id : Uuid}
  {l l' : Lifecycle} {n m : Notification}

/-- The providers after a step. A worker waits for its call, so the provider's bookkeeping is noted
with the answer; a process that crashed builds its providers anew. -/
def noteProviders (modes : ProviderModes) (g : Providers) (s : State) :
    Action → State → Providers
  | .worker w (.answer _), _ =>
    match s.workers w with
    | .calling _ n =>
      Function.update g w
        (Function.update (g w) n.channel ((g w n.channel).send n.id false 0).2)
    | _ => g
  | .worker w (.crash _), _ => Function.update g w (buildProvider modes)
  | _, _ => g

/-- The system beside the providers of its workers. -/
def mockMachine (env : Deployment) (modes : ProviderModes) : Machine (State × Providers) Action :=
  (machine env).withHistory (fun _ => buildProvider modes) (noteProviders modes)

/-- The answers are those of the worker's provider, which raises no exception. -/
def Mocked (x : State × Providers) : Action → Prop
  | .worker w (.answer result) => ∀ d n, x.1.workers w = .calling d n →
      ∃ unlucky uuid, ((x.2 w n.channel).send n.id unlucky uuid).1 = result
  | .worker _ (.sendRaises _) => False
  | _ => True

theorem Mocked.send {g : Providers} {w : Nat} {d : Delivery} {result : ProviderResult}
    (h : Mocked (s, g) (.worker w (.answer result))) (hw : s.workers w = .calling d n) :
    ∃ unlucky uuid, (g w n.channel).send n.id unlucky uuid =
      (result, noteProviders modes g s (.worker w (.answer result)) s' w n.channel) := by
  obtain ⟨unlucky, uuid, hresult⟩ := h d n hw
  refine ⟨unlucky, uuid, Prod.ext hresult ?_⟩
  simp only [noteProviders, hw, Function.update_self]
  exact send_after

/-- The mode of the channel allows the answer. -/
def ProviderModes.Allows (modes : ProviderModes) (channel : NotificationChannel)
    (result : ProviderResult) : Prop :=
  let p := buildProvider modes channel
  (p.mode.delivers = true ∧ ∃ uuid, result = p.succeeded uuid) ∨
    ∃ errorType reason, p.mode.error? = some (errorType, reason) ∧
      result = p.failure errorType reason

/-- The condition on the system alone that the providers guarantee. -/
def AllowedAnswers (modes : ProviderModes) (s : State) : Action → Prop
  | .worker w (.answer result) => ∀ d n, s.workers w = .calling d n → modes.Allows n.channel result
  | .worker _ (.sendRaises _) => False
  | _ => True

/-- The providers are those that `build_provider` has built. -/
def Built (modes : ProviderModes) (g : Providers) : Prop :=
  ∀ w channel, (g w channel).name = (buildProvider modes channel).name ∧
    (g w channel).mode = (buildProvider modes channel).mode

theorem noteProviders_cases (modes : ProviderModes) (g : Providers) (s : State) (a : Action)
    (s' : State) (w : Nat) (channel : NotificationChannel) :
    noteProviders modes g s a s' w channel = g w channel ∨
      (∃ key, noteProviders modes g s a s' w channel = ((g w channel).send key false 0).2) ∨
      (∃ dead, a = .worker w (.crash dead)) ∧
        noteProviders modes g s a s' w channel = buildProvider modes channel := by
  have other (v : Nat) (hv : w ≠ v) (x : NotificationChannel → ConfigurableMockProvider) :
      Function.update g v x w channel = g w channel := by rw [Function.update_of_ne hv]
  cases a with
  | worker v b =>
    cases b with
    | answer result =>
      cases hw : s.workers v with
      | calling d n =>
        simp only [noteProviders, hw]
        by_cases hv : w = v
        · subst hv
          rw [Function.update_self]
          by_cases hc : channel = n.channel
          · subst hc
            exact .inr (.inl ⟨n.id, by rw [Function.update_self]⟩)
          · exact .inl (Function.update_of_ne hc _ _)
        · exact .inl (other v hv _)
      | _ => exact .inl (by simp only [noteProviders, hw])
    | crash dead =>
      by_cases hv : w = v
      · subst hv
        exact .inr (.inr ⟨⟨dead, rfl⟩, by simp only [noteProviders, Function.update_self]⟩)
      · exact .inl (other v hv _)
    | _ => exact .inl rfl
  | _ => exact .inl rfl

theorem built_step {g : Providers} (hg : Built modes g) :
    Built modes (noteProviders modes g s a s') := by
  intro w channel
  rcases noteProviders_cases modes g s a s' w channel with
    heq | ⟨key, heq⟩ | ⟨-, heq⟩ <;> rw [heq]
  · exact hg w channel
  · exact ⟨send_built.1.trans (hg w channel).1, send_built.2.trans (hg w channel).2⟩
  · exact ⟨rfl, rfl⟩

theorem allows_send {p : ConfigurableMockProvider} {channel : NotificationChannel}
    (hname : p.name = (buildProvider modes channel).name)
    (hmode : p.mode = (buildProvider modes channel).mode) (key : Uuid) (unlucky : Bool)
    (uuid : Uuid) : modes.Allows channel (p.send key unlucky uuid).1 := by
  rcases send_cases p key unlucky uuid with
    ⟨hdelivers, heq⟩ | ⟨errorType, reason, herror, heq⟩
  · refine .inl ⟨hmode ▸ hdelivers, uuid, ?_⟩
    rw [heq]
    simp only [ConfigurableMockProvider.succeeded, hname]
  · refine .inr ⟨errorType, reason, hmode ▸ herror, ?_⟩
    rw [heq]
    simp only [ConfigurableMockProvider.failure, hname]

/-- **The providers as a condition.** What the system does beside its providers, it does with
answers that the modes allow. -/
theorem mocked_reach {x : State × Providers} (h : (mockMachine env modes).Reach Mocked x) :
    (machine env).Reach (AllowedAnswers modes) x.1 ∧ Built modes x.2 := by
  refine Machine.Reach.induct (I := fun x => (machine env).Reach (AllowedAnswers modes) x.1 ∧
    Built modes x.2) ?_ ?_ h
  · rintro ⟨s, g⟩ ⟨hinit, rfl⟩
    exact ⟨.init hinit, fun _ _ => ⟨rfl, rfl⟩⟩
  · rintro ⟨s, g⟩ a ⟨t, g'⟩ - ⟨hs, hg⟩ hok hstep
    obtain ⟨ht, hg'⟩ := Machine.step_withHistory.1 hstep
    refine ⟨hs.step ?_ ht, hg' ▸ built_step hg⟩
    cases a with
    | worker w b =>
      cases b with
      | answer result =>
        intro d n hw
        obtain ⟨unlucky, uuid, rfl⟩ := hok d n hw
        exact allows_send (hg w n.channel).1 (hg w n.channel).2 n.id unlucky uuid
      | sendRaises => exact hok
      | _ => trivial
    | _ => trivial

/-! ## Outcomes -/

theorem allows_responded (h : (machine env).Reach (AllowedAnswers modes) s) :
    ∀ w f result, (s.workers w).flight? = some f → f.result = some result →
      modes.Allows f.loaded.channel result := by
  refine Machine.Reach.induct (I := fun s => ∀ w f result, (s.workers w).flight? = some f →
    f.result = some result → modes.Allows f.loaded.channel result) ?_ ?_ h
  · rintro _ ⟨now, rfl⟩ w f result hf
    cases hf
  · intro s a s' hs hI hok hstep v f result hf hr
    rcases step_party hstep with ⟨w, b, rfl, hwstep⟩ | ⟨p, b, rfl, hpstep⟩ | hframe
    · by_cases hv : v = w
      · subst hv
        cases workerStep_cases hwstep with
        | get | ack | reject | crash =>
          rw [show _ = _ from setWorker_self] at hf
          cases hf
        | @reserve d _ _ _ _ _ out =>
          rw [afterReserve_flight, if_pos rfl] at hf
          obtain ⟨n, -, rfl⟩ := Option.map_eq_some_iff.1 hf
          cases hr
        | apply =>
          rw [afterApply_flight, if_pos rfl] at hf
          cases hf
        | @reserveRaises d t₁ t₂ t₃ ids e =>
          have hw : (afterReserve s v d t₃ (.error e)).workers v = .failing d := setWorker_self
          rw [hw] at hf
          cases hf
        | @applyRaises d n r t₁ t₂ ids e =>
          have hw : (afterApply s v d t₂ (.error e)).workers v = .failing d := setWorker_self
          rw [hw] at hf
          cases hf
        | send =>
          rw [show _ = _ from setWorker_self] at hf
          cases hf
          cases hr
        | answer hw =>
          rw [setWorker_self] at hf
          cases hf
          cases hr
          exact hok _ _ hw
        | sendRaises => exact hok.elim
        | disconnect =>
          rw [show _ = _ from setWorker_self, disconnected_flight] at hf
          exact hI v f result hf hr
      · rw [(workerStep_frame hwstep).workers v hv] at hf
        exact hI v f result hf hr
    · rw [(publisherStep_frame hpstep).workers] at hf
      exact hI v f result hf hr
    · rw [hframe.workers] at hf
      exact hI v f result hf hr

/-- The message ids, and the errors, that the channel's provider gives. -/
def ProviderModes.GivesMessageId (modes : ProviderModes) (channel : NotificationChannel)
    (providerMessageId : String) : Prop :=
  let p := buildProvider modes channel
  p.mode.delivers = true ∧ ∃ uuid, providerMessageId = p.name ++ "-mock-" ++ uuidStr uuid

def ProviderModes.GivesError (modes : ProviderModes) (channel : NotificationChannel)
    (error : String) : Prop :=
  let p := buildProvider modes channel
  ∃ errorType reason, p.mode.error? = some (errorType, reason) ∧ error = p.name ++ reason

/-- What the row of a notification says of the answers it has had. -/
structure Notification.OutcomeOf (n : Notification) (cfg : Settings) (modes : ProviderModes) :
    Prop where
  messageId : ∀ m, n.providerMessageId = some m → modes.GivesMessageId n.channel m
  error : ∀ e, n.lastError = some e → e = maxRetriesMessage ∨ modes.GivesError n.channel e
  opened : n.isFinal = false → n.providerMessageId = none
  delivered : n.status = .delivered → n.providerMessageId ≠ none
  dropped : n.status = .dropped → (buildProvider modes n.channel).mode.error? = none →
    cfg.maxRetries ≤ n.attempts

/-- The invariant: so it is of the row, and the attempts in flight began before any message id. -/
structure Lifecycle.Outcome (l : Lifecycle) (cfg : Settings) (modes : ProviderModes) : Prop where
  row : ∀ n, l.row = some n → n.OutcomeOf cfg modes
  flights : ∀ w f n, l.flights w = some f → l.row = some n →
    f.loaded.channel = n.channel ∧ f.loaded.providerMessageId = none

section allows

variable {channel : NotificationChannel} {result : ProviderResult}

theorem messageId_of_allows (h : modes.Allows channel result)
    (hdel : (result.success && result.delivered) = true) :
    ∃ m, result.providerMessageId = some m ∧ modes.GivesMessageId channel m := by
  rcases h with ⟨hdelivers, uuid, rfl⟩ | ⟨errorType, reason, -, rfl⟩
  · exact ⟨_, rfl, hdelivers, uuid, rfl⟩
  · cases hdel

theorem error_of_allows (h : modes.Allows channel result)
    (hdel : (result.success && result.delivered) = false) :
    (buildProvider modes channel).mode.error? ≠ none ∧
      ∃ e, result.errorMessage = some e ∧ modes.GivesError channel e := by
  rcases h with ⟨-, uuid, rfl⟩ | ⟨errorType, reason, herror, rfl⟩
  · cases hdel
  · exact ⟨by simp [herror], _, rfl, errorType, reason, herror, rfl⟩

end allows

theorem outcomeOf_failed {cfg : Settings} {loaded updated : Notification} {result : ProviderResult}
    (hm : m.OutcomeOf cfg modes) (hresult : modes.Allows m.channel result)
    (hdel : (result.success && result.delivered) = false)
    (hid : updated.providerMessageId = loaded.providerMessageId)
    (herror : updated.lastError = result.errorMessage)
    (hstatus : updated.status = loaded.status ∨ updated.status = .dropped) :
    (Notification.writeBack loaded updated m).OutcomeOf cfg modes := by
  obtain ⟨hfails, e, hmessage, hgives⟩ := error_of_allows hresult hdel
  have hid' : (Notification.writeBack loaded updated m).providerMessageId =
      m.providerMessageId := by simp [Notification.writeBack, hid]
  have hstatus' : (Notification.writeBack loaded updated m).status = m.status ∨
      (Notification.writeBack loaded updated m).status = .dropped := by
    rcases hstatus with heq | heq
    · exact .inl (by simp [Notification.writeBack, heq])
    · have hor : (Notification.writeBack loaded updated m).status = m.status ∨
          (Notification.writeBack loaded updated m).status = updated.status := writeColumn_eq_or
      exact hor.imp_right (·.trans heq)
  refine ⟨fun k hk => hm.messageId k (hid' ▸ hk), fun k hk => ?_, fun hopen => ?_, fun hdone => ?_,
    fun _ hnone => absurd hnone hfails⟩
  · have hor : (Notification.writeBack loaded updated m).lastError = m.lastError ∨
        (Notification.writeBack loaded updated m).lastError = updated.lastError :=
      writeColumn_eq_or
    rcases hor with heq | heq
    · exact hm.error k (heq.symm.trans hk)
    · obtain rfl : e = k := Option.some.inj ((hmessage.symm.trans herror.symm).trans
        (heq.symm.trans hk))
      exact .inr hgives
  · rcases hstatus' with heq | heq
    · exact hid'.trans (hm.opened (by simpa [Notification.isFinal, heq] using hopen))
    · simp [Notification.isFinal, heq] at hopen
  · rcases hstatus' with heq | heq
    · exact hid'.symm ▸ hm.delivered (heq.symm.trans hdone)
    · cases heq.symm.trans hdone

theorem outcomeOf_delivered {cfg : Settings} {loaded : Notification} {result : ProviderResult}
    (hm : m.OutcomeOf cfg modes) (hresult : modes.Allows m.channel result)
    (hdel : (result.success && result.delivered) = true) (hsent : loaded.status = .sent)
    (hnone : loaded.providerMessageId = none) :
    (Notification.writeBack loaded (loaded.markedDelivered result) m).OutcomeOf cfg modes := by
  obtain ⟨messageId, hid, hgives⟩ := messageId_of_allows hresult hdel
  have hnew : (Notification.writeBack loaded (loaded.markedDelivered result)
      m).providerMessageId = some messageId := by
    simp [Notification.writeBack, Notification.markedDelivered, writeColumn, hid, hnone]
  have hstatus : (Notification.writeBack loaded (loaded.markedDelivered result) m).status =
      .delivered := by
    simp [Notification.writeBack, Notification.markedDelivered, writeColumn, hsent]
  refine ⟨fun k hk => ?_, fun e he => ?_, fun hopen => ?_, fun _ => by simp [hnew],
    fun hdrop => ?_⟩
  · obtain rfl := Option.some.inj (hnew.symm.trans hk)
    exact hgives
  · have hor : writeColumn loaded.lastError none m.lastError = m.lastError ∨
        writeColumn loaded.lastError none m.lastError = none := writeColumn_eq_or
    rcases hor with heq | heq
    · exact hm.error e (heq.symm.trans he)
    · cases heq.symm.trans he
  · simp [Notification.isFinal, hstatus] at hopen
  · cases hstatus.symm.trans hdrop

theorem outcome_step (h : (machine env).Reach (AllowedAnswers modes) s)
    (hl : (s.lifecycle id).Outcome env.toSettings modes)
    (hstep : (s.lifecycle id).Step env.toSettings a l') : l'.Outcome env.toSettings modes := by
  have hsound := sound_reach h id
  -- the answer of an attempt in flight is one that the channel of the row allows
  have hallows {w : Nat} {f : Flight} {result : ProviderResult} {m : Notification}
      (hf : (s.lifecycle id).flights w = some f) (hr : f.result = some result)
      (hm : (s.lifecycle id).row = some m) : modes.Allows m.channel result :=
    (hl.flights w f m hf hm).1 ▸ allows_responded h w f result (flightOf_eq_some.1 hf).1 hr
  cases hstep with
  | quiet _ hrow _ _ _ hfl =>
    refine ⟨hrow ▸ hl.row, fun w f n hf hn => ?_⟩
    obtain ⟨f₀, hf₀, hloaded, -⟩ := hfl w f hf
    exact hloaded ▸ hl.flights w f₀ n hf₀ (hrow ▸ hn)
  | create _ _ _ _ hnone =>
    refine ⟨?_, fun w f n hf => by simp [hnone] at hf⟩
    rintro _ ⟨⟩
    constructor <;> simp [newNotification]
  | @call w f hw =>
    refine ⟨hl.row, fun v g n hg hn => ?_⟩
    rcases of_update_some hg with ⟨rfl, rfl⟩ | ⟨-, hv⟩
    · exact hl.flights v f n hw hn
    · exact hl.flights v g n hv hn
  | @reserve w t₁ t₂ t₃ lockUntil ids n payload _ _ _ hrow hopen =>
    have hn := hl.row n hrow
    refine ⟨?_, fun v f k hf hk => ?_⟩
    · rintro _ ⟨⟩
      exact ⟨hn.messageId, hn.error, fun _ => hn.opened hopen, (fun h => by cases h),
        (fun h => by cases h)⟩
    · cases hk
      rcases of_update_some hf with ⟨rfl, rfl⟩ | ⟨-, hv⟩
      · exact ⟨rfl, hn.opened hopen⟩
      · exact hl.flights v f n hv hrow
  | defer => exact ⟨hl.row, hl.flights⟩
  | @refuse w t₁ t₂ t₃ ids n _ _ _ hrow hopen _ hmax =>
    have hn := hl.row n hrow
    refine ⟨?_, fun v f k hf hk => ?_⟩
    · rintro _ ⟨⟩
      refine ⟨hn.messageId, ?_, fun _ => hn.opened hopen, (fun h => by cases h), fun _ _ => hmax⟩
      rintro _ ⟨⟩
      exact .inl rfl
    · cases hk
      exact hl.flights v f n hf hrow
  | @deliver w t₁ t₂ ids f result m _ _ hf hr hdel hrow =>
    refine ⟨?_, fun v g k hg hk => ?_⟩
    · rintro _ ⟨⟩
      exact outcomeOf_delivered (hl.row m hrow) (hallows hf hr hrow) hdel (hsound.flights w f hf).1
        (hl.flights w f m hf hrow).2
    · cases hk
      exact hl.flights v g m (of_update_none hg).2 hrow
  | @retry w t₁ t₂ lockUntil delay ids f result m _ _ hf hr hdel _ hrow =>
    refine ⟨?_, fun v g k hg hk => ?_⟩
    · rintro _ ⟨⟩
      exact outcomeOf_failed (hl.row m hrow) (hallows hf hr hrow) hdel rfl rfl (.inl rfl)
    · cases hk
      exact hl.flights v g m (of_update_none hg).2 hrow
  | @drop w t₁ t₂ ids f result m _ _ hf hr hdel _ hrow =>
    refine ⟨?_, fun v g k hg hk => ?_⟩
    · rintro _ ⟨⟩
      exact outcomeOf_failed (hl.row m hrow) (hallows hf hr hrow) hdel rfl rfl (.inr rfl)
    · cases hk
      exact hl.flights v g m (of_update_none hg).2 hrow

theorem outcome_reach (h : (machine env).Reach (AllowedAnswers modes) s) (id : Uuid) :
    (s.lifecycle id).Outcome env.toSettings modes := by
  refine lifecycle_induct (I := fun l => l.Outcome env.toSettings modes) (fun now => ⟨?_, ?_⟩)
    (fun t a l' ht _ hl hstep => outcome_step ht hl hstep) h
  · intro n hn
    cases hn
  · intro w f n hf
    cases hf

/-- **The outcomes of a mode.** With the mock providers, a notification that was delivered bears a
message id of its channel's provider, whose mode has successes; its last error is the text of the
mode's failures, unless its attempts were used up before a call; and in a mode without failures it
is dropped for used up attempts only. -/
theorem mock_outcomes {x : State × Providers} (h : (mockMachine env modes).Reach Mocked x)
    (hn : x.1.store.notifications.get id = some n) :
    (n.status = .delivered → ∃ m, n.providerMessageId = some m) ∧
      (∀ m, n.providerMessageId = some m → modes.GivesMessageId n.channel m) ∧
      (∀ e, n.lastError = some e → e = maxRetriesMessage ∨ modes.GivesError n.channel e) ∧
      (n.status = .dropped → (buildProvider modes n.channel).mode.error? = none →
        env.maxRetries ≤ n.attempts) := by
  have hrow := (outcome_reach (mocked_reach h).1 id).row n hn
  exact ⟨fun hdone => Option.ne_none_iff_exists'.1 (hrow.delivered hdone), hrow.messageId,
    hrow.error, hrow.dropped⟩

/-- The answers of a provider that draws no bad luck and the uuid 0. -/
def answersAsMocked (x : State × Providers) : Action → Bool
  | .worker w (.answer result) =>
    match x.1.workers w with
    | .calling _ n => ((x.2 w n.channel).send n.id false 0).1 = result
    | _ => true
  | .worker _ (.sendRaises _) => false
  | _ => true

theorem mocked_of_answers (x : State × Providers) (a : Action) (h : answersAsMocked x a = true) :
    Mocked x a := by
  cases a with
  | worker w b =>
    cases b with
    | answer result =>
      intro d n hw
      exact ⟨false, 0, by simpa [answersAsMocked, hw] using h⟩
    | sendRaises => cases h
    | _ => trivial
  | _ => trivial

/-- A permanent error: the notification is dropped with the provider's error. -/
theorem mock_outcomes_permanent : ∃ (x : State × Providers) (n : Notification),
    x.1.store.notifications.get 1 = some n ∧ n.status = .dropped ∧ n.channel = .sms ∧
      ((n.status = .delivered → ∃ m, n.providerMessageId = some m) ∧
        (∀ m, n.providerMessageId = some m →
          ProviderModes.GivesMessageId { sms := .permanentError } n.channel m) ∧
        (∀ e, n.lastError = some e → e = maxRetriesMessage ∨
          ProviderModes.GivesError { sms := .permanentError } n.channel e) ∧
        (n.status = .dropped →
          (buildProvider { sms := .permanentError } n.channel).mode.error? = none →
            Sample.env.maxRetries ≤ n.attempts)) := by
  obtain ⟨x, hrun, hp⟩ := Machine.Run.exists_of_execChecked
    (mockMachine Sample.env { sms := .permanentError }) Mocked answersAsMocked
    (.initial 0, fun _ => buildProvider { sms := .permanentError })
    (Sample.attempt ++ [.worker 0 .send,
      .worker 0 (.answer ((buildProvider { sms := .permanentError } .sms).failure .permanent
        " permanent error")),
      .worker 0 (.apply (Sample.sec 5) (Sample.sec 5) ⟨6, 7⟩)])
    (fun x => (x.1.store.notifications.get 1).any fun n =>
      n.status = .dropped && n.channel = .sms) mocked_of_answers (by decide)
  obtain ⟨n, hn, hdrop⟩ := (Option.any_eq_true _ _).1 hp
  simp only [Bool.and_eq_true, decide_eq_true_eq] at hdrop
  exact ⟨x, n, hn, hdrop.1, hdrop.2, mock_outcomes ⟨_, _, ⟨⟨0, rfl⟩, rfl⟩, hrun⟩ hn⟩

/-! ## A failure at most once for each worker -/

/-- The attempt may still deliver. -/
def Flight.Unfailed (f : Flight) : Prop :=
  ∀ result, f.result = some result → (result.success && result.delivered) = true

/-- The workers whose provider has failed with the notification. -/
def failedOnce (g : Providers) (K : Nat) (channel : NotificationChannel) (id : Uuid) : Finset Nat :=
  (Finset.range K).filter fun w => id ∈ (g w channel).temporaryFailures

/-- An action that crashes no worker, and is not one of a worker beyond the first `K`. -/
def Action.steady (K : Nat) : Action → Bool
  | .worker _ (.crash _) => false
  | .worker w _ => w < K
  | _ => true

/-- `K` workers, none of which crashes, each within its locks. A process that was started again
counts as another worker. -/
def OnceTimely (env : Deployment) (K : Nat) (x : State × Providers) (a : Action) : Prop :=
  Mocked x a ∧ a.steady K = true ∧ AttemptsTimely env x.1 a

section once

variable {g : Providers} {K w : Nat} {channel : NotificationChannel} {f : Flight}

theorem temporaryFailures_send {p : ConfigurableMockProvider} {key : Uuid} :
    p.temporaryFailures ⊆ (p.send key false 0).2.temporaryFailures := by
  unfold ConfigurableMockProvider.send
  cases p.mode <;> simp only [List.Subset.refl] <;> split_ifs <;> simp

theorem send_once {p : ConfigurableMockProvider} {key uuid : Uuid} {unlucky : Bool}
    (hmode : p.mode = .temporaryErrorOnce)
    (hfails : ((p.send key unlucky uuid).1.success && (p.send key unlucky uuid).1.delivered) =
      false) :
    key ∉ p.temporaryFailures ∧ key ∈ (p.send key false 0).2.temporaryFailures := by
  unfold ConfigurableMockProvider.send at *
  simp only [hmode] at *
  split at hfails
  · cases hfails
  · next hkey => exact ⟨hkey, by simp [hkey]⟩

theorem failedOnce_note (hcrash : ∀ w dead, a ≠ .worker w (.crash dead)) :
    failedOnce g K channel id ⊆ failedOnce (noteProviders modes g s a s') K channel id := by
  intro w hw
  obtain ⟨hK, hmem⟩ := Finset.mem_filter.1 hw
  refine Finset.mem_filter.2 ⟨hK, ?_⟩
  rcases noteProviders_cases modes g s a s' w channel with
    heq | ⟨key, heq⟩ | ⟨⟨dead, rfl⟩, -⟩
  · exact heq ▸ hmem
  · exact heq ▸ temporaryFailures_send hmem
  · exact absurd rfl (hcrash w dead)

theorem failedOnce_answer {d : Delivery} {result : ProviderResult}
    (hmode : (g w n.channel).mode = .temporaryErrorOnce) (hK : w < K)
    (hw : s.workers w = .calling d n) (hok : Mocked (s, g) (.worker w (.answer result)))
    (hfails : (result.success && result.delivered) = false) :
    (failedOnce g K n.channel n.id).card < (failedOnce
      (noteProviders modes g s (.worker w (.answer result)) s') K n.channel n.id).card := by
  obtain ⟨unlucky, uuid, rfl⟩ := hok d n hw
  obtain ⟨hnot, hmem⟩ := send_once hmode hfails
  refine Finset.card_lt_card ?_
  refine (Finset.ssubset_iff_of_subset (failedOnce_note (by simp))).2 ⟨w, ?_, ?_⟩
  · refine Finset.mem_filter.2 ⟨Finset.mem_range.2 hK, ?_⟩
    simpa [noteProviders, hw] using hmem
  · exact fun hin => hnot (Finset.mem_filter.1 hin).2

theorem delivered_row {cfg : Settings} {st st' : Store} {key : Uuid} {payload : Payload}
    {loaded m : Notification} {result : ProviderResult} {t₁ t₂ : Time} {ids : EventIds}
    (h : Applied cfg st key payload loaded result t₁ t₂ ids st')
    (hm : st.notifications.get loaded.id = some m) (hsent : loaded.status = .sent)
    (hdel : (result.success && result.delivered) = true) :
    st'.notifications.get loaded.id =
      some (Notification.writeBack loaded (loaded.markedDelivered result) m) := by
  cases h with
  | guarded hfin => simp [Notification.isFinal, hsent] at hfin
  | delivered => exact get_saveNotification_self _ hm
  | retried _ hnot => simp [hdel] at hnot
  | dropped _ hnot => simp [hdel] at hnot

/-- An attempt that may still deliver goes on so, unless its provider fails now, or its delivery is
applied. -/
theorem unfailed_step (modes : ProviderModes) {x : State × Providers} (hok : OnceTimely env K x a)
    (hr : (machine env).Reach Machine.Always x.1) (hstep : step env x.1 a = some s')
    (hmode : (x.2 w f.loaded.channel).mode = .temporaryErrorOnce)
    (hf : (x.1.lifecycle id).flights w = some f) (hun : f.Unfailed) :
    (∃ f', (s'.lifecycle id).flights w = some f' ∧ f'.Unfailed) ∨
      (failedOnce x.2 K f.loaded.channel id).card <
        (failedOnce (noteProviders modes x.2 x.1 a s') K f.loaded.channel id).card ∨
      ∃ m, (s'.lifecycle id).row = some m ∧ m.status = .delivered := by
  obtain ⟨hwf, hid⟩ := flightOf_eq_some.1 hf
  have same (h : s'.workers w = x.1.workers w) :
      ∃ f', (s'.lifecycle id).flights w = some f' ∧ f'.Unfailed :=
    ⟨f, flightOf_eq_some.2 ⟨h ▸ hwf, hid⟩, hun⟩
  rcases step_party hstep with ⟨v, b, rfl, hwstep⟩ | ⟨p, b, rfl, hpstep⟩ | hframe
  · by_cases hv : w = v
    · subst hv
      cases workerStep_cases hwstep with
      | get hw | reserve hw | reserveRaises hw | ack hw | reject hw =>
        cases hwf.symm.trans (congrArg Worker.flight? hw)
      | send hw =>
        cases hwf.symm.trans (congrArg Worker.flight? hw)
        exact .inl ⟨_, flightOf_eq_some.2 ⟨congrArg Worker.flight? setWorker_self, hid⟩, nofun⟩
      | @answer d n result hw =>
        cases hwf.symm.trans (congrArg Worker.flight? hw)
        cases hdel : result.success && result.delivered with
        | true =>
          refine .inl ⟨_, flightOf_eq_some.2 ⟨congrArg Worker.flight? setWorker_self, hid⟩, ?_⟩
          rintro _ ⟨⟩
          exact hdel
        | false =>
          subst hid
          exact .inr (.inl (failedOnce_answer hmode (of_decide_eq_true hok.2.1) hw hok.1 hdel))
      | sendRaises => exact hok.1.elim
      | @apply d n result t₁ t₂ ids st hw _ _ _ happ =>
        cases hwf.symm.trans (congrArg Worker.flight? hw)
        subst hid
        obtain ⟨-, m, hm⟩ := (referenced_reach hr).flights w _ hwf
        have hsent : n.status = .sent := ((sound_reach hr n.id).flights w _ hf).1
        refine .inr (.inr ⟨_, delivered_row happ hm hsent (hun result rfl), ?_⟩)
        simp [Notification.writeBack, Notification.markedDelivered, writeColumn, hsent]
      | @applyRaises d n result t₁ t₂ ids e hw _ _ hfresh herr =>
        cases hwf.symm.trans (congrArg Worker.flight? hw)
        obtain ⟨hpid, m, hm⟩ := (referenced_reach hr).flights w _ hwf
        have htotal : ∃ st, apply env.toSettings x.1.store d.message.payload.notificationId
            d.message.payload n result t₁ t₂ ids = .ok st :=
          apply_total d.message.payload t₂ (hpid ▸ hm)
            (fun e he heq => hfresh.2 ids.rowId (by simp) (heq ▸ mem_uuids_of_event he))
            (fun e hdel => absurd (hun result rfl) (ne_true_of_eq_false hdel))
            (hok.2.2.2 _ result hwf rfl).1
        obtain ⟨st, hst⟩ := htotal
        cases hst.symm.trans herr
      | crash => cases hok.2.1
      | disconnect =>
        refine .inl ⟨f, flightOf_eq_some.2 ⟨?_, hid⟩, hun⟩
        rw [show _ = (x.1.workers w).disconnected from setWorker_self, disconnected_flight, hwf]
    · exact .inl (same ((workerStep_frame hwstep).workers w hv))
  · exact .inl (same (by rw [(publisherStep_frame hpstep).workers]))
  · exact .inl (same (by rw [hframe.workers]))

end once

/-- What a step may do to the attempts and the status of a notification, whose row is then `n`. -/
inductive Lifecycle.RowStep (cfg : Settings) (l : Lifecycle) (a : Action) (l' : Lifecycle)
    (n : Notification) : Prop
  | created : n.attempts = 0 → n.status = .queued → RowStep cfg l a l' n
  | same {m : Notification} : l.row = some m → n.channel = m.channel →
      n.attempts = m.attempts → n.status = m.status ∨ n.status = .delivered →
      RowStep cfg l a l' n
  | reserved {m : Notification} {w : Nat} {t₁ t₂ t₃ : Time} {ids : EventIds} {f : Flight} :
      a = .worker w (.reserve t₁ t₂ t₃ ids) → l.row = some m → n.channel = m.channel →
      t₁ ≤ l'.now → m.isFinal = false → m.hasActiveProcessingLock t₁ = false →
      n.attempts = m.attempts + 1 → n.status = .sent → l'.flights w = some f → f.Unfailed →
      RowStep cfg l a l' n
  | refused {m : Notification} {w : Nat} {t₁ t₂ t₃ : Time} {ids : EventIds} :
      a = .worker w (.reserve t₁ t₂ t₃ ids) → l.row = some m → n.channel = m.channel →
      t₁ ≤ l'.now → m.isFinal = false → m.hasActiveProcessingLock t₁ = false →
      cfg.maxRetries ≤ m.attempts → RowStep cfg l a l' n
  | dropped {m : Notification} {w : Nat} {t₁ t₂ : Time} {ids : EventIds} {f : Flight}
      {result : ProviderResult} :
      a = .worker w (.apply t₁ t₂ ids) → l.row = some m → n.channel = m.channel →
      l.flights w = some f → f.result = some result →
      (result.success && result.delivered) = false →
      retryUntil cfg f.loaded.attempts result t₁ = .ok none → RowStep cfg l a l' n

theorem rowStep_of_step {cfg : Settings} (h : l.Step cfg a l') (hs : l.Sound)
    (hn : l'.row = some n) : l.RowStep cfg a l' n := by
  cases h with
  | quiet _ hrow => exact .same (hrow ▸ hn) rfl rfl (.inl rfl)
  | create =>
    cases hn
    exact .created rfl rfl
  | call | defer => exact .same hn rfl rfl (.inl rfl)
  | reserve h₁ h₂ h₃ hrow hopen hlock =>
    cases hn
    exact .reserved rfl hrow rfl (h₂.trans h₃) hopen hlock rfl rfl (Function.update_self ..) nofun
  | refuse h₁ h₂ h₃ hrow hopen hlock hmax =>
    cases hn
    exact .refused rfl hrow rfl (h₂.trans h₃) hopen hlock hmax
  | deliver _ _ hf _ _ hrow =>
    cases hn
    refine .same hrow rfl (by simp [Notification.writeBack, Notification.markedDelivered]) (.inr ?_)
    simp [Notification.writeBack, Notification.markedDelivered, writeColumn,
      (hs.flights _ _ hf).1]
  | retry _ _ _ _ _ _ hrow =>
    cases hn
    refine .same hrow rfl ?_ (.inl ?_) <;>
      simp [Notification.writeBack, Notification.awaitingRetry, Notification.withError]
  | drop _ _ hf hr hdel hnone hrow =>
    cases hn
    exact .dropped rfl hrow rfl hf hr hdel hnone

/-- A row that a reserve finds open and unlocked has no attempt in flight. -/
theorem no_flight_of_unlocked {v w : Nat} {t₁ t₂ t₃ : Time} {ids : EventIds} {f : Flight}
    (ht : (machine env).Reach (AttemptsTimely env) s)
    (hok : AttemptsTimely env s (.worker w (.reserve t₁ t₂ t₃ ids)))
    (hstep : step env s (.worker w (.reserve t₁ t₂ t₃ ids)) = some s')
    (hrow : (s.lifecycle id).row = some n) (hlock : n.hasActiveProcessingLock t₁ = false)
    (hnow : t₁ ≤ s'.now) : (s.lifecycle id).flights v ≠ some f := by
  intro hf
  obtain ⟨hsent, L, hL⟩ := (sound_reach ht id).flights v f hf
  obtain ⟨hvf, -⟩ := flightOf_eq_some.1 hf
  have hloaded : n = f.loaded := Option.some.inj (hrow.symm.trans
    (row_of_timely (callsTimely_of_attempts ht) hf hL (inTime_reach ht v f L hvf rfl hL)))
  rcases flight_stays hstep hvf with ⟨g, hg, hsame, -⟩ | ⟨dead, h⟩ | ⟨_, _, _, _, h, -⟩
  · have hlt := hok.1 s' hstep v g L hg rfl (hsame ▸ hL)
    have := lt_of_le_of_lt hnow hlt
    simp [Notification.hasActiveProcessingLock, hloaded, hsent, hL, this] at hlock
  · cases h
  · cases h

/-- The invariant: each attempt of the notification has failed at a worker of its own, but for one
that is in flight or has delivered. -/
def OnceAttempts (modes : ProviderModes) (K : Nat) (id : Uuid) (l : Lifecycle) (g : Providers) :
    Prop :=
  ∀ n, l.row = some n → (buildProvider modes n.channel).mode = .temporaryErrorOnce →
    n.status ≠ .dropped ∧ n.attempts ≤ (failedOnce g K n.channel id).card + 1 ∧
      (n.status = .delivered ∨ n.attempts ≤ (failedOnce g K n.channel id).card ∨
        ∃ w f, l.flights w = some f ∧ f.Unfailed)

theorem card_failedOnce (g : Providers) (K : Nat) (channel : NotificationChannel) (id : Uuid) :
    (failedOnce g K channel id).card ≤ K :=
  (Finset.card_filter_le _ _).trans (Finset.card_range K).le

section onceStep

variable {K : Nat} {x : State × Providers} {w : Nat} {t₁ t₂ t₃ : Time} {ids : EventIds}

/-- A row that a reserve finds open and unlocked has no attempt but those that have failed. -/
theorem attempts_of_unlocked (ht : (machine env).Reach (AttemptsTimely env) x.1)
    (hok : AttemptsTimely env x.1 (.worker w (.reserve t₁ t₂ t₃ ids)))
    (hstep : step env x.1 (.worker w (.reserve t₁ t₂ t₃ ids)) = some s')
    (hl : OnceAttempts modes K id (x.1.lifecycle id) x.2)
    (hrow : (x.1.lifecycle id).row = some n)
    (hmode : (buildProvider modes n.channel).mode = .temporaryErrorOnce)
    (hopen : n.isFinal = false) (hlock : n.hasActiveProcessingLock t₁ = false)
    (hnow : t₁ ≤ s'.now) : n.attempts ≤ (failedOnce x.2 K n.channel id).card := by
  obtain ⟨-, -, hwhy⟩ := hl n hrow hmode
  rcases hwhy with hdone | hle | ⟨v, g, hg, -⟩
  · simp [Notification.isFinal, hdone] at hopen
  · exact hle
  · exact absurd hg (no_flight_of_unlocked ht hok hstep hrow hlock hnow)

/-- A failing answer is retried: the attempts that have failed are fewer than the workers. -/
theorem retried_once {f : Flight} {result : ProviderResult} (hK : (K : Int) < env.maxRetries)
    (ht : (machine env).Reach (AttemptsTimely env) x.1)
    (hallowed : (machine env).Reach (AllowedAnswers modes) x.1)
    (hl : OnceAttempts modes K id (x.1.lifecycle id) x.2)
    (hrow : (x.1.lifecycle id).row = some n)
    (hmode : (buildProvider modes n.channel).mode = .temporaryErrorOnce)
    (hf : (x.1.lifecycle id).flights w = some f) (hr : f.result = some result)
    (hdel : (result.success && result.delivered) = false) :
    retryUntil env.toSettings f.loaded.attempts result t₁ ≠ .ok none := by
  obtain ⟨-, -, hwhy⟩ := hl n hrow hmode
  obtain ⟨hwf, -⟩ := flightOf_eq_some.1 hf
  obtain ⟨hsent, L, hL⟩ := (sound_reach ht id).flights w f hf
  have hnow := inTime_reach ht w f L hwf rfl hL
  have hcalls := callsTimely_of_attempts ht
  obtain rfl : n = f.loaded :=
    Option.some.inj (hrow.symm.trans (row_of_timely hcalls hf hL hnow))
  have htemp : result.errorType = some .temporary := by
    rcases allows_responded hallowed w f result hwf hr with
      ⟨-, uuid, rfl⟩ | ⟨errorType, reason, herror, rfl⟩
    · cases hdel
    · rw [hmode] at herror
      cases herror
      rfl
  have := card_failedOnce x.2 K f.loaded.channel id
  refine retryUntil_ne_none htemp ?_
  rcases hwhy with hdone | hle | ⟨v, g, hg, hun⟩
  · cases hsent.symm.trans hdone
  · omega
  · have hne : v ≠ w := by
      rintro rfl
      obtain rfl := Option.some.inj (hf.symm.trans hg)
      exact absurd (hun result hr) (by simp [hdel])
    obtain ⟨-, L', hL'⟩ := (sound_reach ht id).flights v g hg
    have hlt := inTime_reach ht v g L' (flightOf_eq_some.1 hg).1 rfl hL'
    exact absurd ((others_stale hcalls hf hL hnow hg hne).2 L' hL') (not_le.2 hlt)

theorem once_step (hK : (K : Int) < env.maxRetries)
    (hx : (mockMachine env modes).Reach (OnceTimely env K) x) (hok : OnceTimely env K x a)
    (hstep : step env x.1 a = some s') (hl : OnceAttempts modes K id (x.1.lifecycle id) x.2) :
    OnceAttempts modes K id (s'.lifecycle id) (noteProviders modes x.2 x.1 a s') := by
  have ht : (machine env).Reach (AttemptsTimely env) x.1 := hx.forget fun _ _ h => h.2.2
  obtain ⟨hallowed, hbuilt⟩ := mocked_reach (hx.imp fun _ _ _ _ h _ => h.1)
  have hcrash : ∀ w dead, a ≠ .worker w (.crash dead) := by
    rintro w dead rfl
    cases hok.2.1
  have hmono (channel : NotificationChannel) : (failedOnce x.2 K channel id).card ≤
      (failedOnce (noteProviders modes x.2 x.1 a s') K channel id).card :=
    Finset.card_le_card (failedOnce_note hcrash)
  have hout := outcome_reach hallowed id
  intro n hn hmode
  cases rowStep_of_step (lifecycle_step ht hstep id) (sound_reach ht id) hn with
  | created hattempts hstatus =>
    rw [hattempts, hstatus]
    exact ⟨nofun, Nat.zero_le _, .inr (.inl (Nat.zero_le _))⟩
  | @same m hrow hchannel hattempts hstatus =>
    rw [hchannel] at hmode ⊢
    obtain ⟨hdrop, hle, hwhy⟩ := hl m hrow hmode
    have := hmono m.channel
    refine ⟨?_, by omega, ?_⟩
    · rcases hstatus with heq | heq <;> rw [heq]
      · exact hdrop
      · nofun
    · rcases hwhy with hdone | hle' | ⟨w, f, hf, hun⟩
      · exact .inl (hstatus.elim (·.trans hdone) fun h => h)
      · exact .inr (.inl (by omega))
      · have hch := (hout.flights w f m hf hrow).1
        have hm : (x.2 w f.loaded.channel).mode = .temporaryErrorOnce := by
          rw [hch]
          exact (hbuilt w m.channel).2.trans hmode
        rcases unfailed_step modes hok ht.always hstep hm hf hun with ⟨f', hf', hun'⟩ | hlt | hdone
        · exact .inr (.inr ⟨w, f', hf', hun'⟩)
        · rw [hch] at hlt
          exact .inr (.inl (by omega))
        · obtain ⟨k, hk, hdone⟩ := hdone
          obtain rfl := Option.some.inj (hn.symm.trans hk)
          exact .inl hdone
  | @reserved m w t₁ t₂ t₃ ids f ha hrow hchannel hnow hopen hlock hattempts hstatus hf hun =>
    subst ha
    rw [hchannel] at hmode ⊢
    have hle := attempts_of_unlocked ht hok.2.2 hstep hl hrow hmode hopen hlock hnow
    have := hmono m.channel
    refine ⟨by simp [hstatus], by omega, .inr (.inr ⟨w, f, hf, hun⟩)⟩
  | @refused m w t₁ t₂ t₃ ids ha hrow hchannel hnow hopen hlock hmax =>
    subst ha
    rw [hchannel] at hmode
    have hle := attempts_of_unlocked ht hok.2.2 hstep hl hrow hmode hopen hlock hnow
    have := card_failedOnce x.2 K m.channel id
    omega
  | @dropped m w t₁ t₂ ids f result ha hrow hchannel hf hr hdel hnone =>
    rw [hchannel] at hmode
    exact absurd hnone (retried_once hK ht hallowed hl hrow hmode hf hr hdel)

end onceStep

/-- **Failing once does not lose a notification.** Where each worker's provider fails at most once
with it, in a run in which every attempt ends within its lock, `K` workers drop no notification as
long as `K` is below `max_retries`, and it takes at most `K + 1` attempts. -/
theorem once_never_drops {K : Nat} {x : State × Providers} (hK : (K : Int) < env.maxRetries)
    (hx : (mockMachine env modes).Reach (OnceTimely env K) x)
    (hn : x.1.store.notifications.get id = some n)
    (hmode : (buildProvider modes n.channel).mode = .temporaryErrorOnce) :
    n.status ≠ .dropped ∧ n.attempts ≤ K + 1 := by
  have hinv : OnceAttempts modes K id (x.1.lifecycle id) x.2 := by
    refine Machine.Reach.induct (I := fun x => OnceAttempts modes K id (x.1.lifecycle id) x.2)
      ?_ ?_ hx
    · rintro ⟨s, g⟩ ⟨⟨now, rfl⟩, -⟩ n hn
      cases hn
    · rintro y a z hy hI hok hstep
      obtain ⟨hz, hg⟩ := Machine.step_withHistory.1 hstep
      rw [hg]
      exact once_step hK hy hok hz hI
  obtain ⟨hdrop, hle, -⟩ := hinv n hn hmode
  exact ⟨hdrop, hle.trans (Nat.succ_le_succ (card_failedOnce x.2 K n.channel id))⟩

/-- One worker, whose first call has just failed. -/
theorem once_never_drops_failing : ∃ (x : State × Providers) (n : Notification),
    x.1.store.notifications.get 1 = some n ∧
      (∃ f result, (x.1.workers 0).flight? = some f ∧ f.result = some result ∧
        result.success = false) ∧
      (n.status ≠ .dropped ∧ n.attempts ≤ 1 + 1) := by
  obtain ⟨x, hrun, hp⟩ := Machine.Run.exists_of_execChecked
    (mockMachine Sample.env { sms := .temporaryErrorOnce })
    (fun x a => Mocked x a ∧ a.steady 1 = true) (fun x a => answersAsMocked x a && a.steady 1)
    (.initial 0, fun _ => buildProvider { sms := .temporaryErrorOnce })
    (Sample.attempt ++ [.worker 0 .send,
      .worker 0 (.answer ((buildProvider { sms := .temporaryErrorOnce } .sms).failure .temporary
        " temporary error"))])
    (fun x => x.1.now = 0 &&
      ((x.1.workers 0).flight?.any fun f => f.result.any fun r => !r.success) &&
      (x.1.store.notifications.get 1).any fun n => n.channel = .sms)
    (fun x a h => (Bool.and_eq_true _ _ ▸ h).imp_left (mocked_of_answers x a)) (by decide)
  simp only [Bool.and_eq_true, decide_eq_true_eq, Option.any_eq_true, Bool.not_eq_true'] at hp
  obtain ⟨⟨hnow, f, hf, result, hr, hfails⟩, n, hn, hchannel⟩ := hp
  have hsteps : (machine Sample.env).Run Machine.Always (.initial 0) _ x.1 :=
    hrun.forget fun _ _ _ => trivial
  have htimely : (machine Sample.env).Run (AttemptsTimely Sample.env) (.initial 0) _ x.1 :=
    timely_of_short hsteps (by rw [hnow]; decide) (by decide)
  have hx : (mockMachine Sample.env { sms := .temporaryErrorOnce }).Reach
      (OnceTimely Sample.env 1) x :=
    ⟨_, _, ⟨⟨0, rfl⟩, rfl⟩, (hrun.and_forget htimely).mono fun _ _ h => ⟨h.1.1, h.1.2, h.2⟩⟩
  exact ⟨x, n, hn, ⟨f, result, hf, hr, hfails⟩,
    once_never_drops (by decide) hx hn (by rw [hchannel]; rfl)⟩

end NotificationSystem
