import Mathlib
import NotificationSystem.ExactlyOnce
import NotificationSystem.Lib.PrefixCode

/-!
# The fingerprint identifies requests

The text that `canonical_json_hash` hashes is prefix-free in each of its parts: an escape shows
where it ends, a quoted string ends at its first bare quotation mark, and a number ends at the
symbol after it. So the parts read back in one way, and the text determines the request.

* `dumps_injective` — different requests have different texts.
* `dumps_reordered` — the order of keys does not matter, at any depth.
* `originated_reach` — a stored fingerprint is that of a request of its key.
* `fingerprint_exact` — hence `create_bulk` tells requests apart, as far as SHA-256 does.
-/

namespace NotificationSystem

open Lib

variable {env : Deployment} {s s' : State} {a : Action}

/-! ## Strings -/

/-- A hexadecimal digit read back. -/
def hexValue (c : Char) : Nat := if c.toNat < 58 then c.toNat - 48 else c.toNat - 87

/-- What comes after a backslash, read back. -/
def unescapeTail : List Char → Option (Char × List Char)
  | 'u' :: _ :: _ :: x :: y :: s => some (Char.ofNat (16 * hexValue x + hexValue y), s)
  | 'b' :: s => some (Char.ofNat 8, s)
  | 't' :: s => some (Char.ofNat 9, s)
  | 'n' :: s => some (Char.ofNat 10, s)
  | 'f' :: s => some (Char.ofNat 12, s)
  | 'r' :: s => some (Char.ofNat 13, s)
  | c :: s => some (c, s)
  | [] => none

/-- The first character of a quoted string, read back. -/
def unescapeChar : List Char → Option (Char × List Char)
  | [] => none
  | c :: s => if c.toNat = 92 then unescapeTail s else some (c, s)

theorem hexValue_hexDigit {n : Nat} (h : n < 16) : hexValue (hexDigit n) = n := by
  interval_cases n <;> rfl

theorem unescape_escapeChar (c : Char) (s : List Char) :
    unescapeChar (escapeChar c ++ s) = some (c, s) := by
  have hc : ∀ n, c.toNat = n → Char.ofNat n = c := fun n hn => hn ▸ Char.ofNat_toNat c
  unfold escapeChar
  split
  · next h => rw [← hc _ h]; rfl
  · next h => rw [← hc _ h]; rfl
  · next h => rw [← hc _ h]; rfl
  · next h => rw [← hc _ h]; rfl
  · next h => rw [← hc _ h]; rfl
  · next h => rw [← hc _ h]; rfl
  · next h => rw [← hc _ h]; rfl
  · next h34 h92 h8 h9 h10 h12 h13 =>
    split
    · next hlt =>
      have hhigh : hexValue (hexDigit (c.toNat / 16)) = c.toNat / 16 :=
        hexValue_hexDigit (by omega)
      have hlow : hexValue (hexDigit (c.toNat % 16)) = c.toNat % 16 :=
        hexValue_hexDigit (by omega)
      show some (Char.ofNat (16 * hexValue (hexDigit (c.toNat / 16)) +
        hexValue (hexDigit (c.toNat % 16))), s) = some (c, s)
      rw [hhigh, hlow, Nat.div_add_mod, Char.ofNat_toNat]
    · exact if_neg h92

/-- **Escapes read back in one way.** -/
theorem escapeChar_prefixFree : PrefixFree escapeChar :=
  prefixFree_of_decode unescapeChar unescape_escapeChar

theorem escapeChar_neverStarts : NeverStarts escapeChar '"' := by
  intro c
  unfold escapeChar
  split
  case h_8 h34 _ _ _ _ _ _ =>
    split
    · exact ⟨_, _, rfl, by decide⟩
    · refine ⟨c, [], rfl, ?_⟩
      rintro rfl
      exact h34 rfl
  all_goals exact ⟨_, _, rfl, by decide⟩

theorem dumpsString_prefixFree : PrefixFree dumpsString := by
  intro a b s t h
  simp only [dumpsString, List.append_assoc, List.append_cancel_left_eq] at h
  obtain ⟨hchars, hst⟩ := flatMap_terminated escapeChar_prefixFree escapeChar_neverStarts h
  exact ⟨String.toList_inj.1 hchars, hst⟩

/-! ## Integers -/

/-- The decimal digits of an integer, with its sign. -/
def intDigits (n : Int) : List Char := (toString n).toList

theorem intDigits_injective : Function.Injective intDigits := by
  intro m n h
  exact Int.repr_injective (String.toList_inj.1 h)

theorem isDigit_of_mem_repr {n : Nat} {c : Char} (h : c ∈ n.repr.toList) : c.isDigit = true := by
  rw [Nat.toList_repr] at h
  exact Nat.isDigit_of_mem_toDigits (by decide) (by decide) h

theorem intDigits_negSucc (n : Nat) :
    intDigits (Int.negSucc n) = '-' :: (n + 1).repr.toList := String.toList_append

theorem mem_intDigits {n : Int} {c : Char} (h : c ∈ intDigits n) : c = '-' ∨ c.isDigit = true := by
  cases n with
  | ofNat n => exact .inr (isDigit_of_mem_repr h)
  | negSucc n =>
    rw [intDigits_negSucc, List.mem_cons] at h
    exact h.imp_right isDigit_of_mem_repr

/-- The digits do not contain the separator or the closing bracket of an array. -/
theorem intDigits_delimited : Delimited intDigits fun c => c = ',' ∨ c = ']' := by
  refine delimited_of_avoids intDigits_injective fun n c hc hstop => ?_
  rcases mem_intDigits hc with rfl | hdigit
  · rcases hstop with h | h <;> cases h
  · rcases hstop with rfl | rfl <;> cases hdigit

theorem intDigits_ne_nil (n : Int) : intDigits n ≠ [] := by
  cases n with
  | ofNat n =>
    show n.repr.toList ≠ []
    rw [Nat.toList_repr]
    exact Nat.toDigits_ne_nil
  | negSucc n =>
    rw [intDigits_negSucc]
    exact List.cons_ne_nil _ _

theorem intDigits_neverStarts : NeverStarts intDigits ']' := by
  intro n
  cases h : intDigits n with
  | nil => exact absurd h (intDigits_ne_nil n)
  | cons c l =>
    refine ⟨c, l, rfl, ?_⟩
    rintro rfl
    rcases mem_intDigits (h ▸ List.mem_cons_self) with h | h <;> cases h

/-! ## Requests -/

theorem dumpsItems_int (l : List Int) :
    Json.dumpsItems (l.map .int) = l.map intDigits := by
  induction l with
  | nil => rfl
  | cons n l ih =>
    rw [List.map_cons, Json.dumpsItems, ih, Json.dumps]
    rfl

/-- The text of a request, with its keys in order. -/
theorem dumps_modelDump (r : BulkNotificationRequest) : r.modelDump.dumps =
    "\x7b".toList ++ dumpsString "channel" ++ ":".toList ++ dumpsString r.channel.value ++
      ",".toList ++ dumpsString "message" ++ ":".toList ++ dumpsString r.message ++
      ",".toList ++ dumpsString "recipient_ids" ++ ":".toList ++ "[".toList ++
        joinItems (r.recipientIds.map intDigits) ++ "]".toList ++
      ",".toList ++ dumpsString "type" ++ ":".toList ++ dumpsString r.type.value ++
        "\x7d".toList := by
  simp [BulkNotificationRequest.modelDump, Json.dumps, Json.dumpsFields, joinFields,
    dumpsItems_int, joinItems, List.intercalate, dumpsField]

theorem joinItems_injective {l₁ l₂ : List Int} {s t : List Char}
    (h : joinItems (l₁.map intDigits) ++ ("]".toList ++ s) =
      joinItems (l₂.map intDigits) ++ ("]".toList ++ t)) : l₁ = l₂ ∧ s = t :=
  intercalate_terminated intDigits_delimited (by decide) intDigits_neverStarts h

theorem channel_value_injective : Function.Injective NotificationChannel.value := by
  intro a b h
  cases a <;> cases b <;> first | rfl | simp [NotificationChannel.value] at h

theorem type_value_injective : Function.Injective NotificationType.value := by
  intro a b h
  cases a <;> cases b <;> first | rfl | simp [NotificationType.value] at h

theorem request_ext {r₁ r₂ : BulkNotificationRequest} (hc : r₁.channel = r₂.channel)
    (ht : r₁.type = r₂.type) (hm : r₁.message = r₂.message)
    (hr : r₁.recipientIds = r₂.recipientIds) : r₁ = r₂ := by
  cases r₁
  cases r₂
  cases hc
  cases ht
  cases hm
  cases hr
  rfl

/-- **The text determines the request.** -/
theorem dumps_injective {r₁ r₂ : BulkNotificationRequest}
    (h : r₁.modelDump.dumps = r₂.modelDump.dumps) : r₁ = r₂ := by
  rw [dumps_modelDump, dumps_modelDump] at h
  simp only [List.append_assoc, List.append_cancel_left_eq] at h
  obtain ⟨hchannel, h⟩ := dumpsString_prefixFree _ _ _ _ h
  simp only [List.append_cancel_left_eq] at h
  obtain ⟨hmessage, h⟩ := dumpsString_prefixFree _ _ _ _ h
  simp only [List.append_cancel_left_eq] at h
  obtain ⟨hrecipients, h⟩ := joinItems_injective h
  simp only [List.append_cancel_left_eq] at h
  obtain ⟨htype, -⟩ := dumpsString_prefixFree _ _ _ _ h
  exact request_ext (channel_value_injective hchannel) (type_value_injective htype) hmessage
    hrecipients

/-! ## The order of keys -/

mutual

/-- The values differ only in the order of the keys of their objects, at any depth. The keys of
an object are different from one another. -/
inductive Json.Reordered : Json → Json → Prop
  | same (j : Json) : Json.Reordered j j
  | arr {items items' : List Json} : Json.ItemsReordered items items' →
      Json.Reordered (.arr items) (.arr items')
  | obj {fields fields' fields'' : List (String × Json)} : (fields.map Prod.fst).Nodup →
      Json.FieldsReordered fields fields' → fields'.Perm fields'' →
      Json.Reordered (.obj fields) (.obj fields'')

/-- The same for the items of an array, one by one. -/
inductive Json.ItemsReordered : List Json → List Json → Prop
  | nil : Json.ItemsReordered [] []
  | cons {j j' : Json} {items items' : List Json} : Json.Reordered j j' →
      Json.ItemsReordered items items' → Json.ItemsReordered (j :: items) (j' :: items')

/-- The same for the values of an object, key by key. -/
inductive Json.FieldsReordered : List (String × Json) → List (String × Json) → Prop
  | nil : Json.FieldsReordered [] []
  | cons {k : String} {j j' : Json} {fields fields' : List (String × Json)} :
      Json.Reordered j j' → Json.FieldsReordered fields fields' →
      Json.FieldsReordered ((k, j) :: fields) ((k, j') :: fields')

end

theorem dumpsFields_keys (fields : List (String × Json)) :
    (Json.dumpsFields fields).map Prod.fst = fields.map Prod.fst := by
  induction fields with
  | nil => rfl
  | cons f fields ih => simp [Json.dumpsFields, ih]

theorem dumpsFields_perm {fields fields' : List (String × Json)} (h : fields.Perm fields') :
    (Json.dumpsFields fields).Perm (Json.dumpsFields fields') := by
  have hmap (l : List (String × Json)) : Json.dumpsFields l = l.map fun f => (f.1, f.2.dumps) := by
    induction l with
    | nil => rfl
    | cons f l ih => simp [Json.dumpsFields, ih]
  rw [hmap, hmap]
  exact h.map _

/-- Sorting by key forgets the order of the members. -/
theorem joinFields_perm {fields fields' : List (String × List Char)}
    (hnd : (fields.map Prod.fst).Nodup) (h : fields.Perm fields') :
    joinFields fields = joinFields fields' := by
  have hsort : fields.insertionSort (fun f g => f.1 ≤ g.1) =
      fields'.insertionSort fun f g => f.1 ≤ g.1 := by
    have hperm := List.perm_insertionSort fun f g : String × List Char => f.1 ≤ g.1
    have htrans : IsTrans (String × List Char) fun f g => f.1 ≤ g.1 := ⟨fun _ _ _ => le_trans⟩
    have htotal : Std.Total fun f g : String × List Char => f.1 ≤ g.1 :=
      ⟨fun f g => le_total f.1 g.1⟩
    refine List.Perm.eq_of_pairwise ?_ (List.pairwise_insertionSort _ fields)
      (List.pairwise_insertionSort _ fields') ((hperm fields).trans (h.trans (hperm fields').symm))
    intro f g hf hg hfg hgf
    rw [List.mem_insertionSort] at hf hg
    exact List.inj_on_of_nodup_map hnd hf (h.mem_iff.2 hg) (le_antisymm hfg hgf)
  rw [joinFields, joinFields, hsort]

mutual

/-- **The text does not depend on the order of keys.** -/
theorem dumps_reordered {j j' : Json} (h : Json.Reordered j j') : j.dumps = j'.dumps := by
  cases h with
  | same => rfl
  | arr hitems => rw [Json.dumps, Json.dumps, dumpsItems_reordered hitems]
  | obj hnd hfields hperm =>
    have hsame := dumpsFields_reordered hfields
    have hkeys := (congrArg (List.map Prod.fst) hsame).symm.trans (dumpsFields_keys _)
    rw [Json.dumps, Json.dumps, hsame, joinFields_perm (hkeys ▸ hnd) (dumpsFields_perm hperm)]

theorem dumpsItems_reordered {items items' : List Json} (h : Json.ItemsReordered items items') :
    Json.dumpsItems items = Json.dumpsItems items' := by
  cases h with
  | nil => rfl
  | cons hj hitems =>
    rw [Json.dumpsItems, Json.dumpsItems, dumps_reordered hj, dumpsItems_reordered hitems]

theorem dumpsFields_reordered {fields fields' : List (String × Json)}
    (h : Json.FieldsReordered fields fields') :
    Json.dumpsFields fields = Json.dumpsFields fields' := by
  cases h with
  | nil => rfl
  | cons hj hfields =>
    rw [Json.dumpsFields, Json.dumpsFields, dumps_reordered hj, dumpsFields_reordered hfields]

end

theorem canonicalText_inj {p p' : Json} : canonicalText p = canonicalText p' ↔ p.dumps = p'.dumps :=
  String.ofList_inj

/-! ## The fingerprints of the records -/

/-- SHA-256 does not map the texts of the two requests to one digest, unless they are equal. -/
def Deployment.TellsApart (env : Deployment) (r₁ r₂ : BulkNotificationRequest) : Prop :=
  env.requestHash r₁ = env.requestHash r₂ →
    canonicalText r₁.modelDump = canonicalText r₂.modelDump

theorem requestHash_inj {r₁ r₂ : BulkNotificationRequest} (h : env.TellsApart r₁ r₂) :
    env.requestHash r₁ = env.requestHash r₂ ↔ r₁ = r₂ := by
  constructor
  · intro hhash
    exact dumps_injective (canonicalText_inj.1 (h hhash))
  · rintro rfl
    rfl

/-- Every record has the key and the fingerprint of a request. -/
def Originated (env : Deployment) (s : State) : Prop :=
  ∀ r ∈ s.store.idempotencyKeys, ∃ q x, s.requests q = some x ∧ x.key = r.key ∧
    env.requestHash x.body = r.requestHash

theorem request_stays {p q : Nat} {b : RequestAction} {x : Request}
    (h : RequestChange env s q b s') (hothers : ∀ p, p ≠ q → s'.requests p = s.requests p)
    (hx : s.requests p = some x) :
    ∃ x', s'.requests p = some x' ∧ x'.key = x.key ∧ x'.body = x.body := by
  by_cases hp : p = q
  · subst hp
    cases h with
    | submitted hnone | refused hnone => cases hnone.symm.trans hx
    | read hq _ _ _ _ hq' | committed hq _ _ _ hq' | rejected hq _ _ _ _ hq' | found hq _ hq'
    | aborted hq _ hq' | released _ hq _ _ hq' | crashed hq hq' =>
      obtain rfl := Option.some.inj (hq.symm.trans hx)
      exact ⟨_, hq', rfl, rfl⟩
  · exact ⟨x, (hothers p hp).trans hx, rfl, rfl⟩

theorem originated_step (hr : Recorded s) (hs : Originated env s) (h : ApiChange env s a s') :
    Originated env s' := by
  intro r hmem
  cases h with
  | quiet _ hreq _ _ hkeys =>
    rw [hkeys] at hmem
    rw [hreq]
    exact hs r hmem
  | select | stop => exact hs r hmem
  | delete => exact hs r (mem_deleteExpired.1 hmem).1
  | @request q b s' _ hchange _ hothers =>
    have old (hold : r ∈ s.store.idempotencyKeys) : ∃ q x, s'.requests q = some x ∧
        x.key = r.key ∧ env.requestHash x.body = r.requestHash := by
      obtain ⟨p, x, hx, hkey, hhash⟩ := hs r hold
      obtain ⟨x', hx', hkey', hbody⟩ := request_stays hchange hothers hx
      exact ⟨p, x', hx', hkey'.trans hkey, by rw [hbody, hhash]⟩
    rcases hr.request_store hchange with
      hstore | ⟨x, expired, expiresAt, ids, stamps, response, hq, -, -, -, hcom⟩
    · exact old (hstore ▸ hmem)
    · rcases ((created_of_commit hcom).records r).1 hmem with ⟨hold, -⟩ | rfl
      · exact old hold
      · obtain ⟨x', hx', hkey, hbody⟩ := request_stays hchange hothers hq
        exact ⟨q, x', hx', hkey, by rw [hbody]⟩

theorem originated_reach {ok : State → Action → Prop} (h : (machine env).Reach ok s) :
    Originated env s := by
  refine Machine.Reach.induct (I := Originated env) ?_ ?_ h
  · rintro _ ⟨now, rfl⟩ r hr
    exact absurd hr Table.not_mem_empty
  · intro t a t' ht horiginated _ hstep
    exact originated_step (recorded_reach ht.always) horiginated (apiChange_of_step hstep)

/-! ## The comparisons -/

/-- The step compares the request's fingerprint with that of the record: `reserve_or_get` has read
it before it expires, or `find` has after a rolled back insert. -/
def RequestAction.Compares (existing : IdempotencyKey) : RequestAction → Prop
  | .read t₁ _ => existing.isExpired t₁ = false
  | .find => True
  | _ => False

theorem compared {q : Nat} {x : Request} {existing : IdempotencyKey} {b : RequestAction}
    (hr : Recorded s) (hq : s.requests q = some x)
    (hget : s.store.idempotencyKeys.get x.key = some existing) (hb : b.Compares existing)
    (h : RequestChange env s q b s') :
    ∃ response, s'.requests q = some { x with
      phase := if existing.requestHash ≠ env.requestHash x.body then .releasing .conflict
        else .releasing (.alreadyExists (alreadyExists response)) } := by
  obtain ⟨batch, -, hbacks⟩ := hr.records existing (Table.mem_of_get hget)
  have hresponse := hbacks.response
  refine ⟨⟨batch.id, "accepted", s.store.batchSize batch.id⟩, ?_⟩
  cases h with
  | @read y t₁ t₂ _ hy _ _ _ _ hq' =>
    obtain rfl := Option.some.inj (hy.symm.trans hq)
    have hlive : t₁ < existing.expiresAt := by
      simpa [RequestAction.Compares, IdempotencyKey.isExpired] using hb
    rw [hq', afterRead_live hget hlive hresponse]
  | found hy _ hq' =>
    obtain rfl := Option.some.inj (hy.symm.trans hq)
    rw [hq', findRecord, hget]
    simp only [afterFind, hresponse]
  | submitted | refused | committed | rejected | aborted | crashed => exact hb.elim
  | released hcases => rcases hcases with rfl | rfl <;> exact hb.elim

/-- **The fingerprint identifies requests**: the text is the same exactly for equal requests, it
does not depend on the order of keys, and where `create_bulk` compares fingerprints it answers
`conflict` exactly when the record was stored for another request than this one, as long as
SHA-256 tells the two texts apart. -/
theorem fingerprint_exact (h : (machine env).Reach Machine.Always s) :
    (∀ r₁ r₂ : BulkNotificationRequest,
      canonicalText r₁.modelDump = canonicalText r₂.modelDump ↔
        r₁.channel = r₂.channel ∧ r₁.type = r₂.type ∧ r₁.message = r₂.message ∧
          r₁.recipientIds = r₂.recipientIds) ∧
      (∀ p p' : Json, p.Reordered p' → canonicalText p = canonicalText p') ∧
      ∀ q x existing a s', s.requests q = some x →
        s.store.idempotencyKeys.get x.key = some existing → a.Compares existing →
        step env s (.request q a) = some s' →
        (∃ q₀ x₀, s.requests q₀ = some x₀ ∧ x₀.key = x.key ∧
          env.requestHash x₀.body = existing.requestHash) ∧
        ∀ body, env.requestHash body = existing.requestHash → env.TellsApart body x.body →
          ∃ x', s'.requests q = some x' ∧ x'.key = x.key ∧ x'.body = x.body ∧
            (x'.phase = .releasing .conflict ↔ body ≠ x.body) ∧
            ((∃ response, x'.phase = .releasing (.alreadyExists response)) ↔ body = x.body) := by
  refine ⟨fun r₁ r₂ => ⟨fun heq => ?_, ?_⟩, fun p p' hp => ?_, ?_⟩
  · obtain rfl := dumps_injective (canonicalText_inj.1 heq)
    exact ⟨rfl, rfl, rfl, rfl⟩
  · rintro ⟨hchannel, htype, hmessage, hrecipients⟩
    rw [request_ext hchannel htype hmessage hrecipients]
  · exact canonicalText_inj.2 (dumps_reordered hp)
  · intro q x existing a s' hq hget hcompares hstep
    refine ⟨?_, fun body hbody hsha => ?_⟩
    · obtain ⟨q₀, x₀, hx₀, hkey, hhash⟩ := originated_reach h existing (Table.mem_of_get hget)
      exact ⟨q₀, x₀, hx₀, hkey.trans (Table.get_key hget), hhash⟩
    · obtain ⟨response, hx'⟩ :=
        compared (recorded_reach h) hq hget hcompares (requestStep_cases hstep)
      refine ⟨_, hx', rfl, rfl, ?_⟩
      have hsame : existing.requestHash = env.requestHash x.body ↔ body = x.body := by
        rw [← hbody]
        exact requestHash_inj hsha
      by_cases heq : body = x.body
      · simp [hsame.2 heq, heq]
      · simp [mt hsame.1 heq, heq]

/-- The digests of the texts of two sample requests. -/
def Sample.hashed : Deployment :=
  { Sample.env with
    sha256 := fun bytes =>
      if bytes = ("\x7b\"channel\":\"sms\",\"message\":\"hello\",\"recipient_ids\":[7]," ++
          "\"type\":\"transactional\"\x7d").toUTF8 then
        "55aced1b1651da85e3841616d9d64a8f86779b4a21044271fde436e21b1728fa"
      else if bytes = ("\x7b\"channel\":\"email\",\"message\":\"hello again\"," ++
          "\"recipient_ids\":[7,8,7],\"type\":\"marketing\"\x7d").toUTF8 then
        "d2cf99a355d950063f4e1a5b44dac0ad1019aef899bba788da80ca63bd8a2cbe"
      else "" }

/-- Another request for the key of the sample's notification, when the first has ended. -/
def Sample.otherRequest : List Action :=
  Sample.creation ++ [.request 0 .getLock, .request 0 .deleteLock,
    .request 1 (.submit Sample.repeated "key")]

/-- The second request for the sample's key is another one, and its answer is a conflict. -/
theorem fingerprint_exact_other : ∃ s s' x',
    step Sample.hashed s (.request 1 (.read 0 0)) = some s' ∧ s'.requests 1 = some x' ∧
      x'.body = Sample.repeated ∧ x'.phase = .releasing .conflict := by
  have hne : Sample.hashed.requestHash Sample.request ≠
      Sample.hashed.requestHash Sample.repeated := by decide
  obtain ⟨s, hrun, hs⟩ := Machine.Run.exists_of_exec_always (machine Sample.hashed) (.initial 0)
    Sample.otherRequest
    (fun s => (s.requests 1).any (fun x => x.key = "key" && x.body.channel = .email &&
        x.body.type = .marketing && x.body.message = "hello again" &&
        x.body.recipientIds = [7, 8, 7]) &&
      (s.store.idempotencyKeys.get "key").any (fun r => r.isExpired 0 = false &&
        r.requestHash = Sample.hashed.requestHash Sample.request) &&
      ((machine Sample.hashed).exec s [.request 1 (.read 0 0)]).any fun _ => true) (by decide)
  rw [Bool.and_eq_true] at hs
  obtain ⟨hs, hexec⟩ := hs
  obtain ⟨s', hstep, -⟩ := Machine.step_of_exec hexec
  simp only [Bool.and_eq_true, Option.any_eq_true, decide_eq_true_eq] at hs
  obtain ⟨⟨x, hx, ⟨⟨⟨hkey, hchannel⟩, htype⟩, hmessage⟩, hrecipients⟩,
    existing, hget, hlive, hhash⟩ := hs
  have hbody : x.body = Sample.repeated := request_ext hchannel htype hmessage hrecipients
  have hall := fingerprint_exact (.run (.init ⟨0, rfl⟩) hrun)
  obtain ⟨-, hanswer⟩ := hall.2.2 1 x existing (.read 0 0) s' hx (hkey ▸ hget) hlive hstep
  obtain ⟨x', hx', -, hbody', hconflict, -⟩ := hanswer Sample.request hhash.symm
    fun heq => absurd (hbody ▸ heq) hne
  refine ⟨s, s', x', hstep, hx', hbody'.trans hbody, hconflict.2 fun heq => hne ?_⟩
  rw [heq, hbody]

end NotificationSystem
