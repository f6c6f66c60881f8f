import NotificationSystem.Lib.Refinement
import NotificationSystem.System

/-!
# What the service is for

The abstract machine: a book of what was asked for, in which every notification has one entry. It
knows no rows, queues, locks or processes. A batch is accepted, the attempts of a notification
begin, are handed to the provider and answered, and the notification ends as delivered or dropped.

* `Entry.Allows` — what may be done for a notification. With `late` an attempt may be handed over
  and a notification may end although it has ended before.
* `contract` — the machine.
* `ended_last` — without `late` nothing is done for a notification that has ended.
* `EndingAccounted`, `ending_accounted` — what the end of a notification rests on.
-/

namespace NotificationSystem

open Lib

/-- One recipient of a batch. -/
structure Order where
  id : Uuid
  batchId : Uuid
  recipientId : Int
  channel : NotificationChannel
  type : NotificationType
  message : String
  deriving DecidableEq, Repr

/-- What the provider is told in an attempt. -/
def Order.call (o : Order) (attempt : Nat) : ProviderCall :=
  ⟨o.recipientId, o.message, o.id, attempt⟩

/-- What the orders of one batch share. -/
def Order.batch (o : Order) : Uuid × NotificationChannel × NotificationType × String :=
  (o.batchId, o.channel, o.type, o.message)

inductive Ending
  | delivered
  | dropped
  deriving DecidableEq, Repr

/-- What is done for a notification. -/
inductive Deed
  | begun
  | handed (call : ProviderCall)
  | answered (attempt : Nat) (result : ProviderResult)
  | ended (ending : Ending)
  deriving DecidableEq, Repr

inductive Event
  | accepted (orders : List Order)
  | did (id : Uuid) (deed : Deed)
  deriving DecidableEq, Repr

/-- What the book says of a notification: its order, the number of attempts, those handed to the
provider, the answers, and how it ended. -/
structure Entry where
  order : Order
  attempts : Nat := 0
  handed : List Nat := []
  answers : List (Nat × ProviderResult) := []
  ending : Option Ending := none

/-- The answer that the message was delivered. -/
def ProviderResult.delivers (result : ProviderResult) : Bool := result.success && result.delivered

/-- The answer that the message is refused for good. -/
def ProviderResult.refuses (result : ProviderResult) : Bool :=
  !result.success && result.errorType ≠ some .temporary

/-- The answer that the message is accepted, which tells neither a delivery nor a reason to try
again. -/
def ProviderResult.acceptsOnly (result : ProviderResult) : Bool :=
  result.success && !result.delivered && result.errorType ≠ some .temporary

namespace Entry

variable {maxRetries : Int} {late : Bool} {e : Entry} {deed : Deed}

/-- The notification has not ended. -/
def Open (late : Bool) (e : Entry) : Prop := late = true ∨ e.ending = none

/-- The attempt is the last one that began. -/
def Current (late : Bool) (e : Entry) (attempt : Nat) : Prop := late = true ∨ attempt = e.attempts

instance : Decidable (e.Open late) := inferInstanceAs (Decidable (_ ∨ _))

instance {attempt : Nat} : Decidable (e.Current late attempt) :=
  inferInstanceAs (Decidable (_ ∨ _))

/-- When a notification may end: as delivered after an answer that it was, as dropped after an
answer that refuses it, when no attempt is left, or after an answer that does no more than accept
it. -/
def Earned (maxRetries : Int) (late : Bool) (e : Entry) : Ending → Prop
  | .delivered => ∃ a ∈ e.answers, a.2.delivers = true ∧ e.Current late a.1
  | .dropped =>
    (∃ a ∈ e.answers, a.2.refuses = true ∧ e.Current late a.1) ∨ maxRetries ≤ e.attempts ∨
      ∃ a ∈ e.answers, a.2.acceptsOnly = true ∧ e.Current late a.1

instance : ∀ ending, Decidable (e.Earned maxRetries late ending)
  | .delivered => inferInstanceAs (Decidable (∃ a ∈ e.answers, _ ∧ _))
  | .dropped =>
    inferInstanceAs (Decidable ((∃ a ∈ e.answers, _ ∧ _) ∨ _ ∨ ∃ a ∈ e.answers, _ ∧ _))

/-- What may be done for a notification. -/
def Allows (maxRetries : Int) (late : Bool) (e : Entry) : Deed → Prop
  | .begun => e.ending = none ∧ e.attempts < maxRetries
  | .handed call => call = e.order.call call.attempt ∧ 0 < call.attempt ∧
      call.attempt ≤ e.attempts ∧ call.attempt ∉ e.handed ∧ e.Open late ∧
      e.Current late call.attempt
  | .answered attempt _ => attempt ∈ e.handed ∧ attempt ∉ e.answers.map (·.1)
  | .ended ending => e.Open late ∧ e.Earned maxRetries late ending

instance : ∀ deed, Decidable (e.Allows maxRetries late deed)
  | .begun | .handed _ | .answered _ _ | .ended _ => inferInstanceAs (Decidable (_ ∧ _))

/-- The entry once it is done. -/
def after (e : Entry) : Deed → Entry
  | .begun => { e with attempts := e.attempts + 1 }
  | .handed call => { e with handed := e.handed ++ [call.attempt] }
  | .answered attempt result => { e with answers := e.answers ++ [(attempt, result)] }
  | .ended ending => { e with ending := some ending }

@[simp] theorem after_order : (e.after deed).order = e.order := by
  cases deed <;> rfl

theorem after_ending (h : e.ending ≠ none) : (e.after deed).ending ≠ none := by
  cases deed with
  | begun | handed | answered => exact h
  | ended => simp [after]

end Entry

/-- The entries of the notifications that were asked for. -/
abbrev Book := Uuid → Option Entry

namespace Book

variable {x : Book} {orders : List Order} {id : Uuid}

/-- The orders of one new batch, one for each recipient. -/
def Acceptable (x : Book) (orders : List Order) : Prop :=
  orders ≠ [] ∧ (orders.map (·.id)).Nodup ∧ (∀ o ∈ orders, x o.id = none) ∧
    (orders.map (·.recipientId)).Nodup ∧ ∀ o ∈ orders, ∀ o' ∈ orders, o.batch = o'.batch

instance : Decidable (x.Acceptable orders) := inferInstanceAs (Decidable (_ ∧ _ ∧ _ ∧ _ ∧ _))

/-- Each order gets its entry. -/
def accept (x : Book) (orders : List Order) : Book := fun id =>
  match orders.find? (·.id = id) with
  | some o => some { order := o }
  | none => x id

theorem accept_self {o : Order} (h : (orders.map (·.id)).Nodup) (ho : o ∈ orders) :
    x.accept orders o.id = some { order := o } := by
  let t : Table Order.id := ⟨orders, h⟩
  have hfind : orders.find? (·.id = o.id) = some o := Table.get_of_mem (show o ∈ t from ho)
  simp only [accept, hfind]

theorem accept_ne (h : ∀ o ∈ orders, o.id ≠ id) : x.accept orders id = x id := by
  have hfind : orders.find? (·.id = id) = none :=
    List.find?_eq_none.2 fun o ho => by simpa using h o ho
  simp only [accept, hfind]

end Book

/-- The machine whose states are books and whose actions are what it is told. -/
def contract (maxRetries : Int) (late : Bool) : Machine Book Event where
  init x := x = fun _ => none
  step x
    | .accepted orders => if x.Acceptable orders then some (x.accept orders) else none
    | .did id deed => (x id).bind fun e =>
        if e.Allows maxRetries late deed then some (Function.update x id (some (e.after deed)))
        else none

section contract

variable {maxRetries : Int} {late : Bool} {x y : Book} {b : Event} {id : Uuid} {deed : Deed}
  {e : Entry} {orders : List Order} {g g₁ g₂ : List Event}

theorem contract_did (hx : x id = some e) (h : e.Allows maxRetries late deed) :
    (contract maxRetries late).step x (.did id deed) =
      some (Function.update x id (some (e.after deed))) := by
  simp [contract, hx, h]

theorem contract_accepted (h : x.Acceptable orders) :
    (contract maxRetries late).step x (.accepted orders) = some (x.accept orders) := by
  simp [contract, h]

/-- The steps of the contract. -/
inductive ContractStep (maxRetries : Int) (late : Bool) (x : Book) : Event → Book → Prop
  | accepted {orders : List Order} : x.Acceptable orders →
      ContractStep maxRetries late x (.accepted orders) (x.accept orders)
  | did {id : Uuid} {deed : Deed} {e : Entry} : x id = some e → e.Allows maxRetries late deed →
      ContractStep maxRetries late x (.did id deed) (Function.update x id (some (e.after deed)))

theorem contract_cases (h : (contract maxRetries late).step x b = some y) :
    ContractStep maxRetries late x b y := by
  cases b with
  | accepted orders =>
    simp only [contract, Option.ite_none_right_eq_some, Option.some.injEq] at h
    obtain ⟨hacc, rfl⟩ := h
    exact .accepted hacc
  | did id deed =>
    obtain ⟨e, hx, h⟩ := Option.bind_eq_some_iff.1 h
    simp only [Option.ite_none_right_eq_some, Option.some.injEq] at h
    obtain ⟨hallow, rfl⟩ := h
    exact .did hx hallow

/-- An entry stays in the book; its order does not change, and once ended it has an end. -/
theorem contract_keeps (h : (contract maxRetries late).step x b = some y) (hx : x id = some e) :
    ∃ e', y id = some e' ∧ e'.order = e.order ∧ (e.ending ≠ none → e'.ending ≠ none) := by
  cases contract_cases h with
  | accepted hacc =>
    refine ⟨e, ?_, rfl, fun hend => hend⟩
    rw [Book.accept_ne fun o ho heq => ?_, hx]
    have hfresh := hacc.2.2.1 o ho
    rw [heq, hx] at hfresh
    cases hfresh
  | @did id' deed e' hx' =>
    by_cases hid : id = id'
    · subst hid
      obtain rfl := Option.some.inj (hx.symm.trans hx')
      exact ⟨e.after deed, Function.update_self .., Entry.after_order, Entry.after_ending⟩
    · exact ⟨e, by rw [Function.update_of_ne hid, hx], rfl, fun hend => hend⟩

/-! ## After the end -/

/-- The event ends the notification. -/
def Event.Ends (b : Event) (id : Uuid) : Prop := ∃ ending, b = .did id (.ended ending)

/-- The event does something for the notification. That the provider answers is not the service's
doing. -/
def Event.Works : Event → Uuid → Prop
  | .accepted orders, id => ∃ o ∈ orders, o.id = id
  | .did _ (.answered _ _), _ => False
  | .did id' _, id => id' = id

theorem stopped_of_ended (hx : x id = some e) (hend : e.ending ≠ none) (hb : b.Works id) :
    (contract maxRetries false).step x b = none := by
  cases hstep : (contract maxRetries false).step x b with
  | none => rfl
  | some y =>
    exfalso
    cases contract_cases hstep with
    | accepted hacc =>
      obtain ⟨o, ho, rfl⟩ := hb
      rw [hacc.2.2.1 o ho] at hx
      cases hx
    | @did id' deed e' hx' hallow =>
      have closed (hid : id' = id) (hopen : e'.Open false) : False := by
        subst hid
        obtain rfl := Option.some.inj (hx.symm.trans hx')
        exact hend (hopen.resolve_left (by decide))
      cases deed with
      | begun => exact closed hb (.inr hallow.1)
      | handed => exact closed hb hallow.2.2.2.2.1
      | answered => exact hb
      | ended => exact closed hb hallow.1

/-- **Nothing is done after the end.** Without `late`, no event of a run comes after the end of the
notification it works for. -/
theorem ended_last {ok : Book → Event → Prop} (h : (contract maxRetries false).Run ok x g y) :
    g.Pairwise fun b b' => ∀ id, b.Ends id → ¬ b'.Works id := by
  refine Machine.Run.pairwise (B := fun x b => ∃ id e, b.Works id ∧ x id = some e ∧ e.ending ≠ none)
    ?_ ?_ ?_ h
  · rintro x b y b' hstep ⟨id, e, hb, hx, hend⟩
    obtain ⟨e', hy, -, hend'⟩ := contract_keeps hstep hx
    exact ⟨id, e', hb, hy, hend' hend⟩
  · rintro x b ⟨id, e, hb, hx, hend⟩
    exact stopped_of_ended hx hend hb
  · intro x b y b' hstep
    by_cases hQ : ∀ id, b.Ends id → ¬ b'.Works id
    · exact .inl hQ
    · simp only [not_forall, not_not] at hQ
      obtain ⟨id, ⟨ending, rfl⟩, hb'⟩ := hQ
      refine .inr ⟨id, ?_⟩
      cases contract_cases hstep with
      | @did _ _ e =>
        exact ⟨e.after (.ended ending), hb', Function.update_self .., by simp [Entry.after]⟩

/-! ## What an end rests on -/

/-- The attempts of a notification that have begun. -/
def begun (g : List Event) (id : Uuid) : Nat := g.count (.did id .begun)

/-- The notification was ordered, its message was handed to the provider for the recipient of the
order, and the provider answered so, in this order among the events. -/
def HasAnswer (g : List Event) (id : Uuid) (result : ProviderResult) : Prop :=
  ∃ orders, ∃ o ∈ orders, ∃ k, o.id = id ∧
    [.accepted orders, .did id (.handed (o.call k)), .did id (.answered k result)].Sublist g

/-- Where an entry comes from: the order, the calls that were made for it and their answers, in
this order among the events. -/
structure Entry.Accounted (e : Entry) (orders : List Order) (g : List Event) (id : Uuid) :
    Prop where
  key : e.order.id = id
  asked : e.order ∈ orders
  accepted : [.accepted orders].Sublist g
  handed : ∀ k ∈ e.handed, [.accepted orders, .did id (.handed (e.order.call k))].Sublist g
  answers : ∀ a ∈ e.answers,
    [.accepted orders, .did id (.handed (e.order.call a.1)), .did id (.answered a.1 a.2)].Sublist g

theorem Entry.Accounted.snoc (h : e.Accounted orders g id) (b : Event) :
    e.Accounted orders (g ++ [b]) id where
  key := h.key
  asked := h.asked
  accepted := h.accepted.trans (List.sublist_append_left g [b])
  handed k hk := (h.handed k hk).trans (List.sublist_append_left g [b])
  answers a ha := (h.answers a ha).trans (List.sublist_append_left g [b])

/-- What is done is accounted for with the event that says so. -/
theorem Entry.Accounted.after (h : e.Accounted orders g id)
    (hallow : e.Allows maxRetries late deed) :
    (e.after deed).Accounted orders (g ++ [.did id deed]) id := by
  have hsnoc := h.snoc (.did id deed)
  cases deed with
  | begun => exact ⟨hsnoc.key, hsnoc.asked, hsnoc.accepted, hsnoc.handed, hsnoc.answers⟩
  | handed call =>
    refine ⟨hsnoc.key, hsnoc.asked, hsnoc.accepted, fun k hk => ?_, hsnoc.answers⟩
    rcases List.mem_append.1 hk with hk | hk
    · exact hsnoc.handed k hk
    · rw [List.mem_singleton.1 hk, Entry.after_order, ← hallow.1]
      exact h.accepted.append_right [.did id (.handed call)]
  | answered attempt result =>
    refine ⟨hsnoc.key, hsnoc.asked, hsnoc.accepted, hsnoc.handed, fun a ha => ?_⟩
    rcases List.mem_append.1 ha with ha | ha
    · exact hsnoc.answers a ha
    · rw [List.mem_singleton.1 ha]
      exact (h.handed attempt hallow.1).append_right [.did id (.answered attempt result)]
  | ended => exact ⟨hsnoc.key, hsnoc.asked, hsnoc.accepted, hsnoc.handed, hsnoc.answers⟩

/-- Every entry is accounted for, and has as many attempts as have begun. -/
def Book.Accounted (g : List Event) (x : Book) : Prop :=
  (∀ id e, x id = some e → ∃ orders, e.Accounted orders g id) ∧
    ∀ id, (x id).elim 0 (·.attempts) = begun g id

theorem accounted_accept (h : x.Accounted g) (hacc : x.Acceptable orders) :
    (x.accept orders).Accounted (g ++ [.accepted orders]) := by
  refine ⟨fun id e he => ?_, fun id => ?_⟩
  · by_cases hnew : ∃ o ∈ orders, o.id = id
    · obtain ⟨o, ho, rfl⟩ := hnew
      rw [Book.accept_self hacc.2.1 ho] at he
      cases he
      refine ⟨orders, rfl, ho, List.sublist_append_right g _, fun k hk => ?_, fun a ha => ?_⟩
      · cases hk
      · cases ha
    · rw [Book.accept_ne (by simpa using hnew)] at he
      obtain ⟨orders', hacc'⟩ := h.1 id e he
      exact ⟨orders', hacc'.snoc _⟩
  · have hbegun : begun (g ++ [.accepted orders]) id = begun g id := by
      simp [begun, List.count_append]
    rw [hbegun, ← h.2 id]
    by_cases hnew : ∃ o ∈ orders, o.id = id
    · obtain ⟨o, ho, rfl⟩ := hnew
      rw [Book.accept_self hacc.2.1 ho, hacc.2.2.1 o ho]
      rfl
    · rw [Book.accept_ne (by simpa using hnew)]

theorem accounted_did (h : x.Accounted g) (hx : x id = some e)
    (hallow : e.Allows maxRetries late deed) :
    Book.Accounted (g ++ [.did id deed]) (Function.update x id (some (e.after deed))) := by
  refine ⟨fun id' e' he => ?_, fun id' => ?_⟩
  · by_cases hid : id' = id
    · subst hid
      rw [Function.update_self] at he
      cases he
      obtain ⟨orders, hacc⟩ := h.1 id' e hx
      exact ⟨orders, hacc.after hallow⟩
    · rw [Function.update_of_ne hid] at he
      obtain ⟨orders, hacc⟩ := h.1 id' e' he
      exact ⟨orders, hacc.snoc _⟩
  · have hcount := h.2 id'
    by_cases hid : id' = id
    · subst hid
      rw [hx] at hcount
      rw [Function.update_self]
      cases deed <;> simp_all [begun, List.count_append, Entry.after]
    · rw [Function.update_of_ne hid, hcount]
      have hne : id ≠ id' := fun h => hid h.symm
      simp [begun, List.count_append, hne]

/-- What the end of a notification rests on: as delivered, on an answer that it was; as dropped, on
an answer that refuses it, on all its attempts, or on an answer that does no more than accept
it. -/
def EndingAccounted (maxRetries : Int) (g : List Event) (id : Uuid) : Ending → Prop
  | .delivered => ∃ result, HasAnswer g id result ∧ result.delivers = true
  | .dropped =>
    (∃ result, HasAnswer g id result ∧ result.refuses = true) ∨ maxRetries ≤ begun g id ∨
      ∃ result, HasAnswer g id result ∧ result.acceptsOnly = true

/-- **Every end rests on what came before it.** -/
theorem ending_accounted {ok : Book → Event → Prop} {ending : Ending}
    (h : (contract maxRetries late).Run ok (fun _ => none)
      (g₁ ++ .did id (.ended ending) :: g₂) y) : EndingAccounted maxRetries g₁ id ending := by
  obtain ⟨x, x', hacc, hstep⟩ := Machine.Run.justified (I := fun g x => Book.Accounted g x)
    ⟨fun id e he => (by cases he), fun id => rfl⟩
    (fun g x b y hacc hstep => by
      cases contract_cases hstep with
      | accepted h => exact accounted_accept hacc h
      | did hx hallow => exact accounted_did hacc hx hallow) h
  cases contract_cases hstep with
  | @did _ _ e hx hallow =>
    obtain ⟨orders, he⟩ := hacc.1 id e hx
    have rests {a : Nat × ProviderResult} (ha : a ∈ e.answers) : HasAnswer g₁ id a.2 :=
      ⟨orders, e.order, he.asked, a.1, he.key, he.answers a ha⟩
    cases ending with
    | delivered =>
      obtain ⟨a, ha, hdel, -⟩ := hallow.2
      exact ⟨a.2, rests ha, hdel⟩
    | dropped =>
      rcases hallow.2 with ⟨a, ha, href, -⟩ | hspent | ⟨a, ha, hacc', -⟩
      · exact .inl ⟨a.2, rests ha, href⟩
      · have hbegun := hacc.2 id
        rw [hx] at hbegun
        exact .inr (.inl (by rw [← hbegun]; exact hspent))
      · exact .inr (.inr ⟨a.2, rests ha, hacc'⟩)

end contract

end NotificationSystem
