import NotificationSystem.QueueModes

/-!
# Polling the queues

A worker of both queues asks for a transactional message first, and for a marketing one only when
there was none; after each message it begins again. The queues are looked at one after the other,
so a transactional message may arrive between the two looks, but only one marketing message gets
ahead of it in this way.

* `pollMachine` — the system with the place of each worker in its loop over the queues.
* `getsOwn_of_polls` — its runs are runs of the system whose workers keep to their mode.
* `looks_run` — every look at an empty queue brings a worker nearer to one with a message.
* `poll_takes` — so the loop takes a message within one look at each queue.
* `high_first` — what is taken from the low queue while a message waits in the high one.
-/

namespace NotificationSystem

open Lib

inductive PollAction
  | act (a : Action)
  | empty (w : Nat)
  | restart (w : Nat)

/-- A state of the system, and of each worker the queue that it looks at next, as an index of its
`queueNames`. -/
abbrev Polling := State × (Nat → Nat)

/-- The loop of `run_forever`: `act` is a step of the system, where a `get` is from the queue that
the worker looks at; `empty` is a `get` that finds nothing, after the last of which the worker
sleeps and begins again; `restart` begins the loop in a new process. -/
def pollStep (env : Deployment) (modes : Nat → WorkerQueueMode) (x : Polling) :
    PollAction → Option Polling
  | .act (.worker w (.get queue message)) =>
    if (modes w).queueNames[x.2 w]? = some queue then
      (step env x.1 (.worker w (.get queue message))).map fun s => (s, Function.update x.2 w 0)
    else none
  | .act a => (step env x.1 a).map fun s => (s, x.2)
  | .empty w =>
    match x.1.workers w, (modes w).queueNames[x.2 w]? with
    | .idle, some queue =>
      if x.1.broker.queues queue = [] then
        some (x.1, Function.update x.2 w ((x.2 w + 1) % (modes w).queueNames.length))
      else none
    | _, _ => none
  | .restart w =>
    match x.1.workers w with
    | .idle => some (x.1, Function.update x.2 w 0)
    | _ => none

def pollMachine (env : Deployment) (modes : Nat → WorkerQueueMode) :
    Machine Polling PollAction where
  init x := (machine env).init x.1 ∧ x.2 = fun _ => 0
  step := pollStep env modes

variable {env : Deployment} {modes : Nat → WorkerQueueMode} {x y : Polling} {a : PollAction}
  {as : List PollAction} {w : Nat} {queue : QueueName}

/-- What a step of the loops is. -/
inductive PollStep (env : Deployment) (modes : Nat → WorkerQueueMode) (x : Polling) :
    PollAction → Polling → Prop
  | get {w : Nat} {queue : QueueName} {message : Message} {s : State} :
      (modes w).queueNames[x.2 w]? = some queue →
      step env x.1 (.worker w (.get queue message)) = some s →
      PollStep env modes x (.act (.worker w (.get queue message))) (s, Function.update x.2 w 0)
  | act {a : Action} {s : State} : (∀ w queue message, a ≠ .worker w (.get queue message)) →
      step env x.1 a = some s → PollStep env modes x (.act a) (s, x.2)
  | empty {w : Nat} {queue : QueueName} : (modes w).queueNames[x.2 w]? = some queue →
      x.1.broker.queues queue = [] →
      PollStep env modes x (.empty w)
        (x.1, Function.update x.2 w ((x.2 w + 1) % (modes w).queueNames.length))
  | restart {w : Nat} : PollStep env modes x (.restart w) (x.1, Function.update x.2 w 0)

theorem pollStep_cases (h : pollStep env modes x a = some y) : PollStep env modes x a y := by
  unfold pollStep at h
  split at h
  · split at h
    · rename_i hlook
      obtain ⟨s, hs, rfl⟩ := Option.map_eq_some_iff.1 h
      exact .get hlook hs
    · cases h
  · rename_i hnot
    obtain ⟨s, hs, rfl⟩ := Option.map_eq_some_iff.1 h
    exact .act hnot hs
  · split at h
    · rename_i hlook
      split at h
      · rename_i hempty
        cases h
        exact .empty hlook hempty
      · cases h
    · cases h
  · split at h
    · cases h
      exact .restart
    · cases h

/-- **The loops keep to the queues of their modes**: without them, the runs are runs of the
system. -/
theorem getsOwn_of_polls (h : (pollMachine env modes).Reach Machine.Always x) :
    (machine env).Reach (GetsOwn modes) x.1 := by
  refine Machine.Reach.induct (I := fun x => (machine env).Reach (GetsOwn modes) x.1) ?_
    (fun x a y _ hx _ hstep => ?_) h
  · rintro x ⟨hinit, -⟩
    exact .init hinit
  cases pollStep_cases hstep with
  | @get w queue message s hlook hs =>
    exact hx.step (a := .worker w (.get queue message)) (List.mem_of_getElem? hlook) hs
  | @act a s hnot hs =>
    refine hx.step ?_ hs
    unfold GetsOwn
    split
    · exact absurd rfl (hnot _ _ _)
    · trivial
  | empty => exact hx
  | restart => exact hx

theorem queueNames_pos (mode : WorkerQueueMode) : 0 < mode.queueNames.length := by
  cases mode <;> decide

theorem looks_step (hx : ∀ w, x.2 w < (modes w).queueNames.length)
    (h : pollStep env modes x a = some y) (w : Nat) : y.2 w < (modes w).queueNames.length := by
  have moved (v k : Nat) (hk : k < (modes v).queueNames.length) :
      Function.update x.2 v k w < (modes w).queueNames.length := by
    by_cases hw : w = v
    · subst hw
      rwa [Function.update_self]
    · rw [Function.update_of_ne hw]
      exact hx w
  cases pollStep_cases h with
  | get => exact moved _ _ (queueNames_pos _)
  | act => exact hx w
  | empty => exact moved _ _ (Nat.mod_lt _ (queueNames_pos _))
  | restart => exact moved _ _ (queueNames_pos _)

theorem looks_reach (h : (pollMachine env modes).Reach Machine.Always x) :
    ∀ w, x.2 w < (modes w).queueNames.length := by
  refine Machine.Reach.induct (I := fun x => ∀ w, x.2 w < (modes w).queueNames.length) ?_
    (fun _ _ _ _ hx _ hstep => looks_step hx hstep) h
  rintro _ ⟨-, hpos⟩ w
  rw [hpos]
  exact queueNames_pos _

/-! ## A message is taken -/

/-- The worker looks at a queue. -/
def PollAction.looks (w : Nat) : PollAction → Bool
  | .act (.worker v (.get _ _)) | .empty v => v = w
  | _ => false

/-- The worker takes a message. -/
def PollAction.takes (w : Nat) : PollAction → Bool
  | .act (.worker v (.get _ _)) => v = w
  | _ => false

/-- How many looks the `i`-th of `n` queues is ahead of the `k`-th. -/
def lookahead (n i k : Nat) : Nat := (i + n - k) % n

theorem lookahead_succ {n i k : Nat} (hi : i < n) (hk : k < n) (hne : k ≠ i) :
    lookahead n i ((k + 1) % n) + 1 = lookahead n i k := by
  unfold lookahead
  rcases Nat.lt_or_gt_of_ne hne with hlt | hgt
  · rw [Nat.mod_eq_of_lt (show k + 1 < n by omega),
      show i + n - (k + 1) = (i - (k + 1)) + n by omega,
      show i + n - k = (i - k) + n by omega, Nat.add_mod_right, Nat.add_mod_right,
      Nat.mod_eq_of_lt (by omega), Nat.mod_eq_of_lt (by omega)]
    omega
  · by_cases hlast : k + 1 = n
    · rw [hlast, Nat.mod_self, Nat.sub_zero, Nat.add_mod_right, Nat.mod_eq_of_lt hi,
        Nat.mod_eq_of_lt (by omega)]
      omega
    · rw [Nat.mod_eq_of_lt (show k + 1 < n by omega), Nat.mod_eq_of_lt (by omega),
        Nat.mod_eq_of_lt (by omega)]
      omega

/-- A message waits in the queue, and the worker is not restarted. -/
def WaitsFor (w : Nat) (queue : QueueName) (x : Polling) (a : PollAction) : Prop :=
  x.1.broker.queues queue ≠ [] ∧ a ≠ .restart w

/-- A step that takes no message for the worker either leaves it where it is in its loop, or is a
look that finds nothing and brings it nearer to the queue with a message. -/
theorem looks_one {i : Nat} (hi : (modes w).queueNames[i]? = some queue)
    (hlt : x.2 w < (modes w).queueNames.length) (hok : WaitsFor w queue x a)
    (hnone : a.takes w = false) (h : pollStep env modes x a = some y) :
    (if a.looks w then 1 else 0) + lookahead (modes w).queueNames.length i (y.2 w) =
      lookahead (modes w).queueNames.length i (x.2 w) := by
  obtain ⟨hin, -⟩ := List.getElem?_eq_some_iff.1 hi
  cases pollStep_cases h with
  | @get v =>
    have hv : v ≠ w := by simpa [PollAction.takes] using hnone
    simp [PollAction.looks, hv, Function.update_of_ne (Ne.symm hv)]
  | @act b s hnot =>
    have hlooks : (PollAction.act b).looks w = false := by
      unfold PollAction.looks
      split
      · next heq =>
        cases heq
        exact absurd rfl (hnot _ _ _)
      · next heq => cases heq
      · rfl
    simp [hlooks]
  | @empty v first hlook hempty =>
    by_cases hv : v = w
    · subst hv
      -- the queue that was found empty is another one
      have hne : x.2 v ≠ i := by
        rintro rfl
        cases hlook.symm.trans hi
        exact hok.1 hempty
      have hnext := lookahead_succ hin hlt hne
      simp only [PollAction.looks, decide_true, if_true, Function.update_self]
      omega
    · simp [PollAction.looks, hv, Function.update_of_ne (Ne.symm hv)]
  | @restart v =>
    have hv : v ≠ w := fun h => hok.2 (h ▸ rfl)
    simp [PollAction.looks, Function.update_of_ne (Ne.symm hv)]

theorem looks_run {i : Nat} (hx : (pollMachine env modes).Reach Machine.Always x)
    (hi : (modes w).queueNames[i]? = some queue)
    (hrun : (pollMachine env modes).Run (WaitsFor w queue) x as y)
    (hnone : ∀ a ∈ as, a.takes w = false) :
    as.countP (·.looks w) + lookahead (modes w).queueNames.length i (y.2 w) =
      lookahead (modes w).queueNames.length i (x.2 w) := by
  induction hrun with
  | nil => simp
  | @snoc as y z a hr hok hstep ih =>
    have hold := ih fun b hb => hnone b (List.mem_append_left _ hb)
    have hlt := looks_reach (hx.run hr.always) w
    have hone := looks_one hi hlt hok (hnone a (by simp)) hstep
    rw [List.countP_append, List.countP_singleton]
    omega

theorem not_dlq (mode : WorkerQueueMode) : QueueName.dlq ∉ mode.queueNames := by
  cases mode <;> decide

theorem takes_of_look (hidle : x.1.workers w = .idle)
    (hlook : (modes w).queueNames[x.2 w]? = some queue) (hqueue : x.1.broker.queues queue ≠ []) :
    ∃ a y, a.looks w = true ∧ (pollMachine env modes).step x a = some y ∧
      (y.1.workers w).delivery?.isSome := by
  obtain ⟨message, hmessage⟩ := List.exists_mem_of_ne_nil _ hqueue
  have hdlq : queue ≠ .dlq := fun h => not_dlq (modes w) (h ▸ List.mem_of_getElem? hlook)
  obtain ⟨s, hget, hs⟩ : ∃ s, step env x.1 (.worker w (.get queue message)) = some s ∧
      s.workers w = .received ⟨message, queue, true⟩ := by
    simp [step, workerStep, hidle, hdlq, hmessage]
  refine ⟨.act (.worker w (.get queue message)), (s, Function.update x.2 w 0),
    decide_eq_true rfl, ?_, ?_⟩
  · simp [pollMachine, pollStep, hlook, hget]
  · simp [hs, Worker.delivery?]

/-- Within as many looks as the queue with a message is ahead, and one more, a message is taken. -/
theorem takes_within {i : Nat} (hi : (modes w).queueNames[i]? = some queue)
    (hlt : x.2 w < (modes w).queueNames.length) (hidle : x.1.workers w = .idle)
    (hqueue : x.1.broker.queues queue ≠ []) {d : Nat}
    (hd : lookahead (modes w).queueNames.length i (x.2 w) = d) :
    ∃ as y, (pollMachine env modes).Run Machine.Always x as y ∧ as.length ≤ d + 1 ∧
      (∀ a ∈ as, a.looks w = true) ∧ (y.1.workers w).delivery?.isSome := by
  obtain ⟨hin, -⟩ := List.getElem?_eq_some_iff.1 hi
  induction d using Nat.strongRecOn generalizing x with
  | ind d ih =>
    obtain ⟨first, hfirst⟩ : ∃ first, (modes w).queueNames[x.2 w]? = some first :=
      ⟨_, List.getElem?_eq_getElem hlt⟩
    by_cases hempty : x.1.broker.queues first = []
    · have hne : x.2 w ≠ i := by
        intro heq
        rw [heq, hi] at hfirst
        cases hfirst
        exact hqueue hempty
      have hnext := lookahead_succ hin hlt hne
      let x' : Polling := (x.1, Function.update x.2 w ((x.2 w + 1) % (modes w).queueNames.length))
      have hstep : (pollMachine env modes).step x (.empty w) = some x' := by
        simp [pollMachine, pollStep, hidle, hfirst, hempty, x']
      have hpos : x'.2 w = (x.2 w + 1) % (modes w).queueNames.length := Function.update_self ..
      rw [← hpos] at hnext
      have hlt' : x'.2 w < (modes w).queueNames.length := by
        rw [hpos]
        exact Nat.mod_lt _ (queueNames_pos _)
      obtain ⟨as, y, hrun, hlen, hloop, hy⟩ := ih _ (by omega) hlt' hidle hqueue rfl
      refine ⟨.empty w :: as, y, (Machine.Run.single trivial hstep).trans hrun, ?_, ?_, hy⟩
      · rw [List.length_cons]
        omega
      · simpa [PollAction.looks] using hloop
    · obtain ⟨a, y, hloop, hstep, hy⟩ := takes_of_look hidle hfirst hempty
      exact ⟨[a], y, .single trivial hstep, by simp, by simpa using hloop, hy⟩

/-- **The loop takes a message when there is one.** In every run in which a message waits in one of
the queues of a worker that is not restarted, the worker has taken a message once it has looked as
often as it has queues; and where it is idle, it can do so with its next looks. -/
theorem poll_takes (h : (pollMachine env modes).Reach Machine.Always x)
    (hmem : queue ∈ (modes w).queueNames) :
    (∀ as y, (pollMachine env modes).Run (WaitsFor w queue) x as y →
      (modes w).queueNames.length ≤ as.countP (·.looks w) → ∃ a ∈ as, a.takes w = true) ∧
    (x.1.workers w = .idle → x.1.broker.queues queue ≠ [] →
      ∃ as y, (pollMachine env modes).Run Machine.Always x as y ∧
        as.length ≤ (modes w).queueNames.length ∧ (∀ a ∈ as, a.looks w = true) ∧
          (y.1.workers w).delivery?.isSome) := by
  obtain ⟨i, hi⟩ := List.mem_iff_getElem?.1 hmem
  have hlt := looks_reach h w
  have hahead : lookahead (modes w).queueNames.length i (x.2 w) < (modes w).queueNames.length :=
    Nat.mod_lt _ (queueNames_pos _)
  refine ⟨fun as y hrun hcount => ?_, fun hidle hqueue => ?_⟩
  · by_contra hnone
    have hlooks := looks_run h hi hrun fun a ha => by
      simpa using fun htakes => hnone ⟨a, ha, htakes⟩
    omega
  · obtain ⟨as, y, hrun, hlen, hloop, hy⟩ := takes_within hi hlt hidle hqueue rfl
    exact ⟨as, y, hrun, hlen.trans hahead, hloop, hy⟩

/-- A marketing message is published. -/
def Sample.marketing : List Action :=
  [.request 1 (.submit repeated "marketing"), .request 1 (.read 0 0),
    .request 1 (.commit (· + 10) fun _ => 0), .publisher 1 (.claim 0 0 0 []), .publisher 1 .load,
    .publisher 1 .publish, .publisher 1 (.record 0)]

def Sample.marketingMessage : Message :=
  ⟨13, .created, (createdEvent repeated (· + 10) (fun _ => 0) 0 7).payload⟩

/-- A message waits in the low queue: the worker finds it with its second look. -/
theorem poll_takes_low : ∃ (x y : Polling) (as : List PollAction),
    (pollMachine Sample.env fun _ => .both).Run (WaitsFor 0 .low) x as y ∧
      as.countP (·.looks 0) = 2 ∧ (∃ a ∈ as, a.takes 0 = true) ∧
      ∃ as y, (pollMachine Sample.env fun _ => .both).Run Machine.Always x as y ∧
        as.length ≤ WorkerQueueMode.both.queueNames.length ∧ (∀ a ∈ as, a.looks 0 = true) ∧
          (y.1.workers 0).delivery?.isSome := by
  let looks : List PollAction := [.empty 0, .act (.worker 0 (.get .low Sample.marketingMessage))]
  obtain ⟨x, hrun, hx⟩ := Machine.Run.exists_of_exec_always
    (pollMachine Sample.env fun _ => .both) (.initial 0, fun _ => 0)
    (Sample.marketing.map .act)
    (fun x => (x.1.broker.queues .low ≠ [] && x.1.workers 0 = .idle) &&
      ((pollMachine Sample.env fun _ => .both).execChecked
        (fun x a => x.1.broker.queues .low ≠ [] && !a matches .restart _) x looks).any
          fun _ => true) (by decide)
  rw [Bool.and_eq_true, Bool.and_eq_true, decide_eq_true_eq, decide_eq_true_eq] at hx
  obtain ⟨⟨hqueue, hidle⟩, hlooks⟩ := hx
  obtain ⟨y, hrun', -⟩ := Machine.Run.exists_of_execChecked _ (WaitsFor 0 .low) _ x looks _
    (fun x a hok => by
      rw [Bool.and_eq_true, decide_eq_true_eq] at hok
      refine ⟨hok.1, ?_⟩
      rintro rfl
      cases hok.2) hlooks
  have htakes := poll_takes (w := 0) (.run (.init ⟨⟨0, rfl⟩, rfl⟩) hrun)
    (show QueueName.low ∈ WorkerQueueMode.both.queueNames by decide)
  exact ⟨x, y, looks, hrun', rfl, htakes.1 looks y hrun' (by decide), htakes.2 hidle hqueue⟩

/-! ## The high queue first -/

/-- The worker takes a message from the low queue. -/
def PollAction.takesLow (w : Nat) : PollAction → Bool
  | .act (.worker v (.get .low _)) => v = w
  | _ => false

/-- A message waits in the high queue. -/
def HighWaits (x : Polling) (_ : PollAction) : Prop := x.1.broker.queues .high ≠ []

instance : Decidable (HighWaits x a) := inferInstanceAs (Decidable (_ ≠ _))

/-- The high queue is looked at first, and then the low one, if at all. -/
theorem high_is_first {mode : WorkerQueueMode} {k : Nat} (hmode : mode ≠ .low)
    (hlook : mode.queueNames[k]? = some queue) (hne : queue ≠ .high) :
    k = 1 ∧ mode.queueNames.length = 2 := by
  cases mode with
  | low => exact absurd rfl hmode
  | high =>
    match k with
    | 0 => exact absurd (Option.some.inj hlook).symm hne
  | both =>
    match k with
    | 0 => exact absurd (Option.some.inj hlook).symm hne
    | 1 => exact ⟨rfl, rfl⟩

/-- While a message waits in the high queue, a worker does not go on to the low one, and when it
has taken a message from there it comes back. -/
theorem takesLow_step (hmode : modes w ≠ .low) (hhigh : x.1.broker.queues .high ≠ [])
    (h : pollStep env modes x a = some y) :
    (if a.takesLow w then 1 else 0) + y.2 w ≤ x.2 w := by
  have other {b : PollAction} {f : Nat → Nat} (hb : b.takesLow w = false) (hf : f w ≤ x.2 w) :
      (if b.takesLow w then 1 else 0) + f w ≤ x.2 w := by
    rw [if_neg (by simp [hb]), Nat.zero_add]
    exact hf
  have moved {v : Nat} {k : Nat} (hk : v = w → k = 0) : Function.update x.2 v k w ≤ x.2 w := by
    by_cases hv : w = v
    · subst hv
      rw [Function.update_self, hk rfl]
      exact Nat.zero_le _
    · rw [Function.update_of_ne hv]
  cases pollStep_cases h with
  | @get v queue message s hlook =>
    by_cases hlow : queue = .low ∧ v = w
    · obtain ⟨rfl, rfl⟩ := hlow
      obtain ⟨hk, -⟩ := high_is_first hmode hlook (by decide)
      simp [PollAction.takesLow, hk]
    · refine other ?_ (moved fun _ => rfl)
      cases queue with
      | low => simpa [PollAction.takesLow] using hlow
      | high | dlq => rfl
  | @act b s hnot =>
    refine other ?_ (Nat.le_refl _)
    unfold PollAction.takesLow
    split
    · rename_i heq
      cases heq
      exact absurd rfl (hnot _ _ _)
    · rfl
  | @empty v queue hlook hempty =>
    refine other rfl (moved ?_)
    rintro rfl
    have hne : queue ≠ .high := fun heq => hhigh (heq ▸ hempty)
    obtain ⟨hk, hlen⟩ := high_is_first hmode hlook hne
    rw [hk, hlen]
  | restart => exact other rfl (moved fun _ => rfl)

theorem takesLow_run (hmode : modes w ≠ .low)
    (h : (pollMachine env modes).Run HighWaits x as y) :
    as.countP (·.takesLow w) + y.2 w ≤ x.2 w := by
  induction h with
  | nil => simp
  | @snoc as y z a _ hhigh hstep ih =>
    have hone := takesLow_step hmode hhigh hstep
    rw [List.countP_append, List.countP_singleton]
    omega

/-- **The high queue comes first.** While a message waits there, a worker that is not for the low
queue alone takes no message from the low queue but one, and that one only if it had looked at the
high queue before. -/
theorem high_first (h : (pollMachine env modes).Reach Machine.Always x) (hmode : modes w ≠ .low)
    (hrun : (pollMachine env modes).Run HighWaits x as y) :
    as.countP (·.takesLow w) ≤ x.2 w ∧ x.2 w ≤ 1 := by
  have hlt := looks_reach h w
  have hlen : (modes w).queueNames.length ≤ 2 := by cases modes w <;> decide
  exact ⟨(Nat.le_add_right _ _).trans (takesLow_run hmode hrun), by omega⟩

/-- The worker looks at the high queue, then a transactional message arrives there, and the worker
takes the marketing message that waits in the low one. -/
theorem high_first_one : ∃ (x y : Polling) (as : List PollAction),
    (pollMachine Sample.env fun _ => .both).Run HighWaits x as y ∧
      as.countP (·.takesLow 0) = 1 ∧ as.countP (·.takesLow 0) ≤ x.2 0 ∧ x.2 0 ≤ 1 := by
  let take : List PollAction := [.act (.worker 0 (.get .low Sample.marketingMessage))]
  obtain ⟨x, hrun, hx⟩ := Machine.Run.exists_of_exec_always
    (pollMachine Sample.env fun _ => .both) (.initial 0, fun _ => 0)
    (Sample.marketing.map .act ++ [.empty 0] ++ (Sample.creation ++ Sample.publication).map .act)
    (fun x => ((pollMachine Sample.env fun _ => .both).execChecked
      (fun x a => decide (HighWaits x a)) x take).any fun _ => true) (by decide)
  obtain ⟨y, hrun', -⟩ := Machine.Run.exists_of_execChecked _ HighWaits _ x take _
    (fun _ _ => of_decide_eq_true) hx
  exact ⟨x, y, take, hrun', rfl,
    high_first (.run (.init ⟨⟨0, rfl⟩, rfl⟩) hrun) (by decide) hrun'⟩

end NotificationSystem
