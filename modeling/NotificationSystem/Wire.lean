import NotificationSystem.JsonText

/-!
# Message bodies

What the records of the model are in the code: dictionaries of JSON values, which the publisher
writes as bytes and the worker reads. `payloadDict`, `addRetry` and `addFailed` are the code's
functions on dictionaries, `columnText` is what the `payload` column holds, `messageBody` what
`NotificationPublisher` sends, and `decodePayload` what `Worker.run_forever` and
`NotificationProcessor.process` make of a body before they look at the database.

* `uuidOfStr_uuidStr` — a uuid is read back.
* `Represents` — a dictionary says what a payload record says.
* `represents_addRetry`, `represents_addFailed` — the code's dictionaries represent the model's
  records.
* `decode_messageBody` — a body is read back, with the id of its notification.
-/

namespace NotificationSystem

open Lib

/-! ## uuids -/

/-- Digits in groups of 8, 4, 4, 4 and 12. -/
def uuidGroups (hex : List Char) : List Char :=
  hex.take 8 ++ '-' :: ((hex.drop 8).take 4 ++ '-' :: ((hex.drop 12).take 4 ++
    '-' :: ((hex.drop 16).take 4 ++ '-' :: hex.drop 20)))

/-- `str(uuid)`. -/
def uuidStr (u : Uuid) : String := String.ofList (uuidGroups (hexFixed 32 u))

/-- `s.replace(pattern, "")`; the first argument counts the symbols that are still to go. -/
def removeAll (pattern : List Char) : Nat → List Char → List Char
  | _, [] => []
  | k + 1, _ :: s => removeAll pattern k s
  | 0, c :: s =>
    if pattern.isPrefixOf (c :: s) then removeAll pattern (pattern.length - 1) s
    else c :: removeAll pattern 0 s

/-- `s.strip("{}")`. -/
def stripBraces (s : List Char) : List Char :=
  let brace c := c = '\x7b' || c = '\x7d'
  ((s.dropWhile brace).reverse.dropWhile brace).reverse

/-- The number that hexadecimal digits stand for. -/
def parseHex : List Char → Option Nat :=
  List.foldlM (fun acc c => (hexOf c).map fun d => 16 * acc + d) 0

/-- The digits of a uuid's text. -/
def uuidDigits (text : List Char) : List Char :=
  (stripBraces (removeAll "uuid:".toList 0 (removeAll "urn:".toList 0 text))).filter (· ≠ '-')

/-- `uuid.UUID(hex)`; `none` is the `ValueError`. -/
def uuidOfStr (s : String) : Option Uuid :=
  if (uuidDigits s.toList).length = 32 then parseHex (uuidDigits s.toList) else none

/-! ## Times -/

/-- The days of the year before each month. -/
def daysBeforeMonth : List Nat := [0, 31, 59, 90, 120, 151, 181, 212, 243, 273, 304, 334]

/-- A leap year of the proleptic Gregorian calendar. -/
def isLeap (year : Nat) : Bool := year % 4 = 0 && (year % 100 ≠ 0 || year % 400 = 0)

/-- Month and day of the `n`-th day of a year, counted from 0. -/
def monthAndDay (leap : Bool) (n : Nat) : Nat × Nat :=
  let before m := daysBeforeMonth.getD (m - 1) 0 + if 2 < m && leap then 1 else 0
  let month := if before ((n + 50) / 32) ≤ n then (n + 50) / 32 else (n + 50) / 32 - 1
  (month, n - before month + 1)

/-- The date of the `n`-th day from 0001-01-01 on: the algorithm of `date.fromordinal`. -/
def dateOf (n : Nat) : Nat × Nat × Nat :=
  let n400 := n / 146097
  let n100 := n % 146097 / 36524
  let n4 := n % 146097 % 36524 / 1461
  let n1 := n % 146097 % 36524 % 1461 / 365
  let year := n400 * 400 + n100 * 100 + n4 * 4 + n1 + 1
  if n1 = 4 ∨ n100 = 4 then (year - 1, 12, 31)
  else (year, monthAndDay (isLeap year) (n % 146097 % 36524 % 1461 % 365))

/-- A number with at least `k` decimal digits. -/
def padded (k n : Nat) : String :=
  String.ofList (List.replicate (k - (Nat.toDigits 10 n).length) '0' ++ Nat.toDigits 10 n)

/-- `datetime.isoformat` of a time in UTC. -/
def isoformat (t : Time) : String :=
  let (year, month, day) := dateOf (t / 86400000000 + 719162).toNat
  let seconds := (t % 86400000000 / 1000000).toNat
  let micros := (t % 1000000).toNat
  padded 4 year ++ "-" ++ padded 2 month ++ "-" ++ padded 2 day ++ "T" ++
    padded 2 (seconds / 3600) ++ ":" ++ padded 2 (seconds / 60 % 60) ++ ":" ++
    padded 2 (seconds % 60) ++ (if micros = 0 then "" else "." ++ padded 6 micros) ++ "+00:00"

example : isoformat 0 = "1970-01-01T00:00:00+00:00" := by decide

/-! ## Dictionaries -/

/-- A JSON object in memory. -/
abbrev JsonDict := Dict String Json

/-- `notification_payload`. -/
def payloadDict (eventId notificationId batchId : Uuid) (subscriberId : Int)
    (channel : NotificationChannel) (type : NotificationType) (attempt : Nat) (createdAt : Time)
    (routingKey : String) (retryDelaySeconds : Option Int) (errorMessage : Option String) :
    JsonDict :=
  let payload : JsonDict := Dict.ofPairs [("event_id", .str (uuidStr eventId)),
    ("notification_id", .str (uuidStr notificationId)), ("batch_id", .str (uuidStr batchId)),
    ("subscriber_id", .int subscriberId), ("channel", .str channel.value),
    ("type", .str type.value), ("attempt", .int attempt),
    ("created_at", .str (isoformat createdAt)), ("routing_key", .str routingKey)]
  (payload.setIf "retry_delay_seconds" (retryDelaySeconds.map .int)).setIf "error_message"
    (errorMessage.map .str)

/-- The payload that `add_retry` stores. -/
def addRetry (n : Notification) (source : JsonDict) (delaySeconds : Int)
    (errorMessage deferredReason : Option String) : JsonDict :=
  let payload := ((source.set "attempt" (.int (n.attempts + 1 : Nat))).set "routing_key"
    (.str (routingKeyForNotificationType n.type))).set "retry_delay_seconds" (.int delaySeconds)
  (payload.setIf "error_message" (errorMessage.map .str)).setIf "deferred_reason"
    (deferredReason.map .str)

/-- `_routing_key`; a value that is not a string does not occur in a payload. -/
def routingKeyOf (n : Notification) (source : Option JsonDict) : String :=
  match source.bind (Dict.lookup · "routing_key") with
  | some (.str key) => if key ≠ "" then key else routingKeyForNotificationType n.type
  | _ => routingKeyForNotificationType n.type

/-- The payload that `add_failed` stores. -/
def addFailed (n : Notification) (source : Option JsonDict) (errorMessage : Option String)
    (now : Time) (ids : EventIds) : JsonDict :=
  payloadDict ids.eventId n.id n.batchId n.subscriberId n.channel n.type n.attempts now
    (routingKeyOf n source) none errorMessage

/-! ## Bodies -/

section bodies

variable (limits : JsonLimits)

/-- What the database layer puts into the `payload` column; `none` where `json.dumps` raises. -/
def columnText (payload : JsonDict) : Option String := dumps limits true (.obj payload.rows)

/-- The body that the publisher sends. -/
def messageBody (payload : JsonDict) : Option ByteArray :=
  (dumps limits false (.obj payload.rows)).map String.toUTF8

/-- `publish_outbox_event`: the queue that the payload reaches, and the body. -/
def publishDict (eventType : EventType) (payload : JsonDict) : Option (QueueName × ByteArray) :=
  match eventType with
  | .created | .retryScheduled =>
    match payload.lookup "routing_key" with
    | some (.str routingKey) =>
      (messageBody limits payload).bind fun body =>
        (exchangeBinding routingKey).map fun q => (q, body)
    | _ => none
  | .failed =>
    (messageBody limits payload).bind fun body =>
      (dlxBinding "notification.failed").map fun q => (q, body)
  | .other _ => none

/-- What a worker makes of a body: `json.loads` raises a `JSONDecodeError`, something else is
raised, or the payload and its notification's id go on to `reserve`. What comes of half a
surrogate pair is left open. -/
inductive Decoded
  | invalid
  | raised
  | surrogate
  | ok (payload : JsonDict) (notificationId : Uuid)

/-- `json.loads(body.decode("utf-8"))` and `uuid.UUID(payload["notification_id"])`. -/
def decodePayload (floatRepr : String → String) (body : ByteArray) : Decoded :=
  match String.fromUTF8? body with
  | none => .raised
  | some text =>
    match loads limits floatRepr text with
    | .error .decodeError => .invalid
    | .error .raised => .raised
    | .error .surrogate => .surrogate
    | .ok (.obj fields) =>
      match (Dict.ofPairs fields).lookup "notification_id" with
      | some (.str hex) =>
        match uuidOfStr hex with
        | some notificationId => .ok (Dict.ofPairs fields) notificationId
        | none => .raised
      | _ => .raised
    | .ok _ => .raised

end bodies

/-! ## uuids are read back -/

theorem length_hexFixed (k n : Nat) : (hexFixed k n).length = k := by
  induction k generalizing n with
  | zero => rfl
  | succ k ih => rw [hexFixed, List.length_append, ih]; rfl

theorem mem_hexFixed {k n : Nat} {c : Char} (h : c ∈ hexFixed k n) :
    ∃ d, d < 16 ∧ c = hexDigit d := by
  induction k generalizing n with
  | zero => cases h
  | succ k ih =>
    rcases List.mem_append.1 h with h | h
    · exact ih h
    · exact ⟨n % 16, Nat.mod_lt _ (by decide), List.mem_singleton.1 h⟩

theorem hexFixed_avoids {k n : Nat} {c : Char} (h : c ∈ hexFixed k n) :
    c ≠ '-' ∧ c ≠ 'u' ∧ c ≠ '\x7b' ∧ c ≠ '\x7d' := by
  obtain ⟨d, hd, rfl⟩ := mem_hexFixed h
  interval_cases d <;> decide

theorem parseHex_hexFixed (k n : Nat) : parseHex (hexFixed k n) = some (n % 16 ^ k) := by
  induction k generalizing n with
  | zero => simp [hexFixed, parseHex, Nat.mod_one]
  | succ k ih =>
    have hdigit : hexOf (hexDigit (n % 16)) = some (n % 16) :=
      hexOf_hexDigit (Nat.mod_lt _ (by decide))
    have hsplit : 16 * (n / 16 % 16 ^ k) + n % 16 = n % 16 ^ (k + 1) := by
      rw [Nat.pow_succ, Nat.mul_comm (16 ^ k), Nat.mod_mul, Nat.add_comm]
    unfold parseHex at ih ⊢
    rw [hexFixed, List.foldlM_append, ih]
    simp [hdigit, hsplit]

theorem removeAll_of_notMem {c : Char} {pattern s : List Char} (h : c ∉ s) :
    removeAll (c :: pattern) 0 s = s := by
  induction s with
  | nil => rfl
  | cons b s ih =>
    have hne : c ≠ b := fun he => h (he ▸ List.mem_cons_self)
    have hprefix : (c :: pattern).isPrefixOf (b :: s) = false := by simp [List.isPrefixOf, hne]
    rw [removeAll, hprefix, ih fun hc => h (List.mem_cons_of_mem _ hc)]
    rfl

theorem stripBraces_of_notMem {s : List Char} (hopen : '\x7b' ∉ s) (hclose : '\x7d' ∉ s) :
    stripBraces s = s := by
  have hstop {l : List Char} (hl : ∀ c ∈ l, c ∈ s) :
      l.dropWhile (fun c => c = '\x7b' || c = '\x7d') = l := by
    refine dropWhile_stops fun c t heq => ?_
    have hc : c ∈ s := hl c (heq ▸ List.mem_cons_self)
    simp only [Bool.or_eq_false_iff, decide_eq_false_iff_not]
    exact ⟨fun he => hopen (he ▸ hc), fun he => hclose (he ▸ hc)⟩
  simp only [stripBraces]
  rw [hstop fun _ hc => hc, hstop fun _ hc => List.mem_reverse.1 hc, List.reverse_reverse]

theorem take_append_drop_drop (l : List Char) (m k : Nat) :
    (l.drop m).take k ++ l.drop (m + k) = l.drop m := by
  rw [← List.drop_drop, List.take_append_drop]

theorem mem_uuidGroups {hex : List Char} {c : Char} (h : c ∈ uuidGroups hex) :
    c = '-' ∨ c ∈ hex := by
  simp only [uuidGroups, List.mem_append, List.mem_cons] at h
  rcases h with h | h | h | h | h | h | h | h | h
  all_goals first
    | exact .inl h
    | exact .inr (List.mem_of_mem_take h)
    | exact .inr (List.mem_of_mem_drop (List.mem_of_mem_take h))
    | exact .inr (List.mem_of_mem_drop h)

theorem filter_uuidGroups {hex : List Char} (h : '-' ∉ hex) :
    (uuidGroups hex).filter (· ≠ '-') = hex := by
  have hkeep {l : List Char} (hl : ∀ c ∈ l, c ∈ hex) : l.filter (· ≠ '-') = l := by
    refine List.filter_eq_self.2 fun c hc => decide_eq_true ?_
    rintro rfl
    exact h (hl _ hc)
  have hdash (l : List Char) : ('-' :: l).filter (· ≠ '-') = l.filter (· ≠ '-') := by simp
  simp only [uuidGroups, List.filter_append, hdash]
  rw [hkeep fun c hc => List.mem_of_mem_take hc,
    hkeep fun c hc => List.mem_of_mem_drop (List.mem_of_mem_take hc),
    hkeep fun c hc => List.mem_of_mem_drop (List.mem_of_mem_take hc),
    hkeep fun c hc => List.mem_of_mem_drop (List.mem_of_mem_take hc),
    hkeep fun c hc => List.mem_of_mem_drop hc, take_append_drop_drop hex 16 4,
    take_append_drop_drop hex 12 4, take_append_drop_drop hex 8 4, List.take_append_drop]

theorem uuidDigits_uuidGroups {hex : List Char}
    (h : ∀ c ∈ hex, c ≠ '-' ∧ c ≠ 'u' ∧ c ≠ '\x7b' ∧ c ≠ '\x7d') :
    uuidDigits (uuidGroups hex) = hex := by
  have hnot {c : Char} (hdash : c ≠ '-') (hc : c ∉ hex) : c ∉ uuidGroups hex := fun hmem =>
    (mem_uuidGroups hmem).elim hdash hc
  have hu : 'u' ∉ uuidGroups hex := hnot (by decide) fun hc => (h _ hc).2.1 rfl
  have hurn : removeAll "urn:".toList 0 (uuidGroups hex) = uuidGroups hex := removeAll_of_notMem hu
  have huuid : removeAll "uuid:".toList 0 (uuidGroups hex) = uuidGroups hex :=
    removeAll_of_notMem hu
  have hstrip : stripBraces (uuidGroups hex) = uuidGroups hex :=
    stripBraces_of_notMem (hnot (by decide) fun hc => (h _ hc).2.2.1 rfl)
      (hnot (by decide) fun hc => (h _ hc).2.2.2 rfl)
  rw [uuidDigits, hurn, huuid, hstrip, filter_uuidGroups fun hc => (h _ hc).1 rfl]

/-- **A uuid is read back.** -/
theorem uuidOfStr_uuidStr {u : Uuid} (hu : u < 2 ^ 128) : uuidOfStr (uuidStr u) = some u := by
  have hdigits : uuidDigits (uuidStr u).toList = hexFixed 32 u := by
    rw [uuidStr, String.toList_ofList, uuidDigits_uuidGroups fun c hc => hexFixed_avoids hc]
  rw [uuidOfStr, hdigits, if_pos (length_hexFixed 32 u), parseHex_hexFixed,
    Nat.mod_eq_of_lt (by omega)]

/-! ## Records and dictionaries -/

/-- A payload record as a dictionary. -/
def Payload.toDict (p : Payload) : JsonDict :=
  (payloadDict p.eventId p.notificationId p.batchId p.subscriberId p.channel p.type p.attempt
    p.createdAt p.routingKey p.retryDelaySeconds p.errorMessage).setIf "deferred_reason"
      (p.deferredReason.map .str)

/-- The integers of a payload have at most so many digits. -/
def Payload.short (digits : Nat) (p : Payload) : Bool :=
  (p.subscriberId :: (p.attempt : Int) :: p.retryDelaySeconds.toList).all
    fun n => (Nat.toDigits 10 n.natAbs).length ≤ digits

/-- The dictionary has the keys and values of the record, in any order. -/
def Represents (d : JsonDict) (p : Payload) : Prop := ∀ k, d.lookup k = p.toDict.lookup k

theorem lookup_toDict (p : Payload) (k : String) : p.toDict.lookup k =
    if k = "deferred_reason" then p.deferredReason.map .str
    else if k = "error_message" then p.errorMessage.map .str
    else if k = "retry_delay_seconds" then p.retryDelaySeconds.map .int
    else if k = "routing_key" then some (.str p.routingKey)
    else if k = "created_at" then some (.str (isoformat p.createdAt))
    else if k = "attempt" then some (.int p.attempt)
    else if k = "type" then some (.str p.type.value)
    else if k = "channel" then some (.str p.channel.value)
    else if k = "subscriber_id" then some (.int p.subscriberId)
    else if k = "batch_id" then some (.str (uuidStr p.batchId))
    else if k = "notification_id" then some (.str (uuidStr p.notificationId))
    else if k = "event_id" then some (.str (uuidStr p.eventId))
    else none := by
  simp only [Payload.toDict, payloadDict, Dict.lookup_setIf, Dict.ofPairs, List.foldl_cons,
    List.foldl_nil, Dict.lookup_set, Dict.lookup_empty]
  by_cases hreason : k = "deferred_reason"
  · subst hreason
    simp
  by_cases herror : k = "error_message"
  · subst herror
    simp
  by_cases hdelay : k = "retry_delay_seconds"
  · subst hdelay
    simp
  simp only [hreason, herror, hdelay, if_false]

section represents

variable {d : JsonDict} {p : Payload} {n : Notification}

theorem Represents.routingKey (h : Represents d p) :
    d.lookup "routing_key" = some (.str p.routingKey) := by
  rw [h, lookup_toDict]
  simp

theorem Represents.notificationId (h : Represents d p) :
    d.lookup "notification_id" = some (.str (uuidStr p.notificationId)) := by
  rw [h, lookup_toDict]
  simp

theorem plain_toDict (p : Payload) : ∀ f ∈ p.toDict, f.2.Plain := by
  have hstr (o : Option String) (v : Json) (h : o.map Json.str = some v) : v.Plain := by
    obtain ⟨s, -, rfl⟩ := Option.map_eq_some_iff.1 h
    exact .str s
  have hint (o : Option Int) (v : Json) (h : o.map Json.int = some v) : v.Plain := by
    obtain ⟨n, -, rfl⟩ := Option.map_eq_some_iff.1 h
    exact .int n
  refine Dict.values_setIf (Dict.values_setIf (Dict.values_setIf ?_ (hint _)) (hstr _)) (hstr _)
  intro f hf
  rw [Dict.mem_ofPairs (by simp)] at hf
  simp only [List.mem_cons, List.not_mem_nil, or_false] at hf
  rcases hf with rfl | rfl | rfl | rfl | rfl | rfl | rfl | rfl | rfl
  all_goals first
    | exact .str _
    | exact .int _

theorem Represents.plain (h : Represents d p) : (Json.obj d.rows).Plain := by
  refine .obj d.nodup fun f hf => ?_
  have hlookup : p.toDict.lookup f.1 = some f.2 := (h f.1).symm.trans (Dict.lookup_eq_some.2 hf)
  exact plain_toDict p f (Dict.lookup_eq_some.1 hlookup)

theorem within_toDict {digits levels : Nat} (hp : p.short digits = true) :
    ∀ f ∈ p.toDict, f.2.within digits levels := by
  simp only [Payload.short, List.all_cons, Bool.and_eq_true, decide_eq_true_eq, List.all_eq_true,
    Option.mem_toList] at hp
  obtain ⟨hsubscriber, hattempt, hdelay⟩ := hp
  rw [Int.natAbs_natCast] at hattempt
  have hstr (o : Option String) (v : Json) (h : o.map Json.str = some v) :
      v.within digits levels := by
    obtain ⟨s, -, rfl⟩ := Option.map_eq_some_iff.1 h
    simp [Json.within]
  have hint (v : Json) (h : p.retryDelaySeconds.map Json.int = some v) :
      v.within digits levels := by
    obtain ⟨n, hn, rfl⟩ := Option.map_eq_some_iff.1 h
    simpa [Json.within] using hdelay n hn
  refine Dict.values_setIf (Dict.values_setIf (Dict.values_setIf ?_ hint) (hstr _)) (hstr _)
  intro f hf
  rw [Dict.mem_ofPairs (by simp)] at hf
  simp only [List.mem_cons, List.not_mem_nil, or_false] at hf
  rcases hf with rfl | rfl | rfl | rfl | rfl | rfl | rfl | rfl | rfl <;>
    simp [Json.within, hsubscriber, hattempt]

/-- Short integers are all that it takes to store a payload. -/
theorem columnText_of_short {limits : JsonLimits} (h : Represents d p)
    (hlevels : 0 < limits.nesting) (hp : p.short limits.digits = true) :
    (columnText limits d).isSome := by
  obtain ⟨k, hk⟩ := Nat.exists_eq_succ_of_ne_zero hlevels.ne'
  have hfields : ∀ f ∈ d.rows, f.2.within limits.digits k := fun f hf => by
    have hlookup : p.toDict.lookup f.1 = some f.2 := (h f.1).symm.trans (Dict.lookup_eq_some.2 hf)
    exact within_toDict hp f (Dict.lookup_eq_some.1 hlookup)
  have hwithin : (Json.obj d.rows).within limits.digits limits.nesting := by
    rw [hk, Json.within]
    exact within_fields.2 hfields
  rw [columnText, dumps, if_pos hwithin]
  rfl

/-- `add_retry` on dictionaries is `retryPayload` on records. -/
theorem represents_addRetry (h : Represents d p) (n : Notification) (delaySeconds : Int)
    (errorMessage deferredReason : Option String) :
    Represents (addRetry n d delaySeconds errorMessage deferredReason)
      (retryPayload n p delaySeconds errorMessage deferredReason) := by
  intro k
  have hk := h k
  rw [lookup_toDict] at hk ⊢
  simp only [addRetry, Dict.lookup_setIf, Dict.lookup_set, hk, retryPayload]
  by_cases hreason : k = "deferred_reason"
  · subst hreason
    cases deferredReason <;> simp
  by_cases herror : k = "error_message"
  · subst herror
    cases errorMessage <;> simp
  by_cases hdelay : k = "retry_delay_seconds"
  · subst hdelay
    simp
  by_cases hkey : k = "routing_key"
  · subst hkey
    simp
  by_cases hattempt : k = "attempt"
  · subst hattempt
    simp
  simp only [hreason, herror, hdelay, hkey, hattempt, if_false]

theorem routingKeyOf_some (h : Represents d p) (n : Notification) :
    routingKeyOf n (some d) = failedRoutingKey n (some p) := by
  rw [routingKeyOf, Option.bind_some, h.routingKey]
  rfl

/-- `add_failed` on dictionaries makes the payload of `failedEvent`. -/
theorem represents_addFailed {source : Option JsonDict} {record : Option Payload}
    (h : routingKeyOf n source = failedRoutingKey n record) (errorMessage : Option String)
    (now createdAt : Time) (ids : EventIds) :
    Represents (addFailed n source errorMessage now ids)
      (failedEvent n record errorMessage now createdAt ids).payload := by
  have heq : addFailed n source errorMessage now ids =
      (failedEvent n record errorMessage now createdAt ids).payload.toDict := by
    simp only [addFailed, h, Payload.toDict, failedEvent, notificationPayload, Option.map_none,
      Dict.setIf]
  exact fun k => congrArg (Dict.lookup · k) heq

theorem fromUTF8_toUTF8 (s : String) : String.fromUTF8? s.toUTF8 = some s :=
  dif_pos s.isValidUTF8

variable {limits : JsonLimits}

/-- What can be stored can be sent, and the column gives it back. -/
theorem column_read_back (floatRepr : String → String) (h : Represents d p)
    (hstore : (columnText limits d).isSome) :
    (columnText limits d).map (loads limits floatRepr) = some (.ok (.obj d.rows)) := by
  have hwithin := of_isSome_dumps hstore
  obtain ⟨text, hdumps, hloads⟩ := loads_dumps limits floatRepr true h.plain hwithin
  rw [columnText, hdumps, Option.map_some, hloads]

/-- **A body is read back**: the dictionary that was sent, and the id of its notification. -/
theorem decode_messageBody (floatRepr : String → String) (h : Represents d p)
    (hstore : (columnText limits d).isSome) (hid : p.notificationId < 2 ^ 128) :
    ∃ body, messageBody limits d = some body ∧
      decodePayload limits floatRepr body = .ok d p.notificationId := by
  have hwithin := of_isSome_dumps hstore
  obtain ⟨text, hdumps, hloads⟩ := loads_dumps limits floatRepr false h.plain hwithin
  refine ⟨text.toUTF8, by rw [messageBody, hdumps, Option.map_some], ?_⟩
  simp only [decodePayload, fromUTF8_toUTF8, hloads, Dict.ofPairs_of_rows, h.notificationId,
    uuidOfStr_uuidStr hid]

theorem publishDict_eq (h : Represents d p) {body : ByteArray}
    (hbody : messageBody limits d = some body) (eventType : EventType) :
    publishDict limits eventType d =
      (publishOutboxEvent eventType p).map fun q => (q, body) := by
  cases eventType <;> simp [publishDict, publishOutboxEvent, h.routingKey, hbody]

end represents

end NotificationSystem
