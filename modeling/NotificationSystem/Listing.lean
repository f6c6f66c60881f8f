import NotificationSystem.Lib.OrderBy
import NotificationSystem.Lib.Paging
import NotificationSystem.Lifecycle

/-!
# Listing a subscriber's notifications

`NotificationService.list_for_subscriber` selects a page of the notifications, and then, in a
second `SELECT`, their history. The order of the notifications is by two columns that are never
updated, so between two reads the listing only has notifications added, and the offset of one that
was there at the first read never decreases.

* `PageReads` — a client reads page after page while the system runs.
* `scan_of_reads` — the pages are a scan of the ordered keys.
* `paging_complete` — no notification is skipped.
-/

namespace NotificationSystem

open Lib

variable {env : Deployment} {s s' : State} {st st' : Store} {subscriberId : Int}
  {channel : Option NotificationChannel} {limit k : Nat} {n : Notification}

/-! ## The response -/

structure StatusHistoryItem where
  status : NotificationStatus
  errorMessage : Option String
  createdAt : Time
  deriving DecidableEq, Repr

structure NotificationItem where
  notificationId : Uuid
  batchId : Uuid
  subscriberId : Int
  channel : NotificationChannel
  type : NotificationType
  message : String
  currentStatus : NotificationStatus
  attempts : Nat
  providerMessageId : Option String
  lastError : Option String
  createdAt : Time
  history : List StatusHistoryItem
  deriving DecidableEq, Repr

structure NotificationListResponse where
  subscriberId : Int
  items : List NotificationItem
  limit : Nat
  offset : Nat
  deriving DecidableEq, Repr

/-- `_to_item`, where `history` holds the rows of `Notification.history`. -/
def toItem (history : Uuid → List NotificationStatusHistory) (n : Notification) :
    NotificationItem where
  notificationId := n.id
  batchId := n.batchId
  subscriberId := n.subscriberId
  channel := n.channel
  type := n.type
  message := n.message
  currentStatus := n.status
  attempts := n.attempts
  providerMessageId := n.providerMessageId
  lastError := n.lastError
  createdAt := n.createdAt
  history := (history n.id).map fun item => ⟨item.status, item.errorMessage, item.createdAt⟩

/-! ## The query -/

/-- The `WHERE` clauses of `list_for_subscriber`. -/
def Notification.listedFor (n : Notification) (subscriberId : Int)
    (status : Option NotificationStatus) (channel : Option NotificationChannel) : Bool :=
  n.subscriberId = subscriberId && status.all (n.status = ·) && channel.all (n.channel = ·)

/-- Its order: `created_at`, then `id`, both descending. -/
def Notification.listedBefore (n m : Notification) : Prop :=
  m.createdAt < n.createdAt ∨ (m.createdAt = n.createdAt ∧ m.id ≤ n.id)

instance : DecidableRel Notification.listedBefore := fun n m => by
  unfold Notification.listedBefore; infer_instance

/-- The notifications that match, in order. -/
def Store.listing (st : Store) (subscriberId : Int) (status : Option NotificationStatus)
    (channel : Option NotificationChannel) : List Notification :=
  (st.notifications.rows.filter (·.listedFor subscriberId status channel)).insertionSort
    Notification.listedBefore

/-- `selectinload(Notification.history)`: the second query, over `st`, may return these rows. The
relationship orders them by `created_at`. -/
def Store.SelectsHistory (st : Store) (history : Uuid → List NotificationStatusHistory) : Prop :=
  ∀ id, OrderedBy (·.createdAt) (st.historyOf id) (history id)

/-- One answer to the second query. -/
def Store.orderedHistory (st : Store) (id : Uuid) : List NotificationStatusHistory :=
  (st.historyOf id).insertionSort fun x y => x.createdAt ≤ y.createdAt

theorem selectsHistory_ordered (st : Store) : st.SelectsHistory st.orderedHistory :=
  fun _ => orderedBy_insertionSort

/-- `list_for_subscriber`: the notifications are selected from `st`, and the second query has
returned `history`. -/
def listForSubscriber (st : Store) (history : Uuid → List NotificationStatusHistory)
    (subscriberId : Int)
    (status : Option NotificationStatus := none) (channel : Option NotificationChannel := none)
    (limit : Nat := 50) (offset : Nat := 0) : NotificationListResponse where
  subscriberId := subscriberId
  items := (page (st.listing subscriberId status channel) limit offset).map (toItem history)
  limit := limit
  offset := offset

/-! ## The order -/

/-- What the order of a listing reads. -/
def Notification.listKey (n : Notification) : Time × Uuid := (n.createdAt, n.id)

def NotificationItem.listKey (item : NotificationItem) : Time × Uuid :=
  (item.createdAt, item.notificationId)

/-- `x` comes before `y` in a listing. -/
def Newer (x y : Time × Uuid) : Prop := y.1 < x.1 ∨ (y.1 = x.1 ∧ y.2 < x.2)

instance : Std.Asymm Newer where
  asymm x y h h' := by
    rcases h with h | ⟨h, hid⟩ <;> rcases h' with h' | ⟨h', hid'⟩
    · exact lt_asymm h h'
    · exact h.ne' h'
    · exact h'.ne' h
    · exact lt_asymm hid hid'

instance : IsTrans Notification Notification.listedBefore where
  trans n m o h h' := by
    rcases h with h | ⟨h, hid⟩ <;> rcases h' with h' | ⟨h', hid'⟩
    · exact .inl (h'.trans h)
    · exact .inl (h' ▸ h)
    · exact .inl (h ▸ h')
    · exact .inr ⟨h'.trans h, hid'.trans hid⟩

instance : Std.Total Notification.listedBefore where
  total n m := by
    rcases lt_trichotomy n.createdAt m.createdAt with h | h | h
    · exact .inr (.inl h)
    · exact (le_total m.id n.id).imp (fun hid => .inr ⟨h.symm, hid⟩) fun hid => .inr ⟨h, hid⟩
    · exact .inl (.inl h)

/-- The keys of the listing without a status filter. -/
def Store.listKeys (st : Store) (subscriberId : Int) (channel : Option NotificationChannel) :
    List (Time × Uuid) :=
  (st.listing subscriberId none channel).map (·.listKey)

theorem mem_listing {status : Option NotificationStatus} :
    n ∈ st.listing subscriberId status channel ↔
      n ∈ st.notifications ∧ n.listedFor subscriberId status channel = true := by
  rw [Store.listing, List.mem_insertionSort, List.mem_filter, Table.mem_def]

theorem listing_ids_nodup {status : Option NotificationStatus} :
    ((st.listing subscriberId status channel).map (·.id)).Nodup := by
  have hperm := (List.perm_insertionSort Notification.listedBefore
    (st.notifications.rows.filter (·.listedFor subscriberId status channel))).map (·.id)
  refine hperm.nodup_iff.2 (st.notifications.nodup.sublist ?_)
  exact List.filter_sublist.map _

theorem listKeys_ordered : (st.listKeys subscriberId channel).Pairwise Newer := by
  have hsorted := List.pairwise_insertionSort Notification.listedBefore
    (st.notifications.rows.filter (·.listedFor subscriberId none channel))
  have hids : ((st.listing subscriberId none channel).map (·.id)).Nodup := listing_ids_nodup
  rw [Store.listKeys, List.pairwise_map]
  refine (List.pairwise_and_iff.2 ⟨hsorted, List.pairwise_map.1 hids⟩).imp ?_
  intro n m ⟨hbefore, hne⟩
  exact hbefore.imp_right fun ⟨htime, hid⟩ => ⟨htime, lt_of_le_of_ne hid hne.symm⟩

/-! ## Reading page after page -/

/-- A client reads the pages from the `k`-th on, the first of them in `s` and the last in `s'`,
until one has fewer than `limit` items. The system takes any steps between the reads and between
the two queries of a read. -/
inductive PageReads (env : Deployment) (subscriberId : Int) (channel : Option NotificationChannel)
    (limit : Nat) : Nat → State → List NotificationListResponse → State → Prop
  | last {k : Nat} {s t : State} {as : List Action}
      {history : Uuid → List NotificationStatusHistory} :
      (machine env).Run Machine.Always s as t → t.store.SelectsHistory history →
      (listForSubscriber s.store history subscriberId none channel limit
        (k * limit)).items.length < limit →
      PageReads env subscriberId channel limit k s
        [listForSubscriber s.store history subscriberId none channel limit (k * limit)] s
  | next {k : Nat} {s t u s' : State} {as bs : List Action}
      {history : Uuid → List NotificationStatusHistory}
      {responses : List NotificationListResponse} :
      (machine env).Run Machine.Always s as t → t.store.SelectsHistory history →
      (listForSubscriber s.store history subscriberId none channel limit
        (k * limit)).items.length = limit →
      (machine env).Run Machine.Always t bs u →
      PageReads env subscriberId channel limit (k + 1) u responses s' →
      PageReads env subscriberId channel limit k s
        (listForSubscriber s.store history subscriberId none channel limit (k * limit) ::
          responses) s'

/-- The keys of a page. -/
def NotificationListResponse.keys (r : NotificationListResponse) : List (Time × Uuid) :=
  r.items.map (·.listKey)

theorem listForSubscriber_keys {history : Uuid → List NotificationStatusHistory} {offset : Nat} :
    (listForSubscriber st history subscriberId none channel limit offset).keys =
      page (st.listKeys subscriberId channel) limit offset := by
  simp [NotificationListResponse.keys, listForSubscriber, Store.listKeys, page, List.map_take,
    List.map_drop, Function.comp_def, toItem, NotificationItem.listKey, Notification.listKey]

theorem length_keys (r : NotificationListResponse) : r.keys.length = r.items.length := by
  simp [NotificationListResponse.keys]

/-- A notification stays in the listings that it is in, in the same place of the order. -/
theorem listKeys_subset (h : st.KeepsCreated st') :
    st.listKeys subscriberId channel ⊆ st'.listKeys subscriberId channel := by
  intro key hkey
  obtain ⟨n, hn, rfl⟩ := List.mem_map.1 hkey
  obtain ⟨hmem, hlisted⟩ := mem_listing.1 hn
  obtain ⟨n', hget, hsame⟩ := h n.id n (Table.get_of_mem hmem)
  refine List.mem_map.2 ⟨n', mem_listing.2 ⟨Table.mem_of_get hget, ?_⟩, ?_⟩
  · show n'.asCreated.listedFor subscriberId none channel = true
    rw [hsame]
    exact hlisted
  · show n'.asCreated.listKey = n.asCreated.listKey
    rw [hsame]

theorem listKeys_sublist (h : st.KeepsCreated st') :
    (st.listKeys subscriberId channel).Sublist (st'.listKeys subscriberId channel) :=
  sublist_of_ordered listKeys_ordered listKeys_ordered (listKeys_subset h)

theorem keepsCreated_of_reads {responses : List NotificationListResponse}
    (h : PageReads env subscriberId channel limit k s responses s') :
    s.store.KeepsCreated s'.store := by
  induction h with
  | last => exact keepsCreated_of_eq rfl
  | next hread _ _ hbetween _ ih =>
    exact ((keepsCreated_of_run hread).trans (keepsCreated_of_run hbetween)).trans ih

/-- **The reads are a scan** of the keys. Between two reads the keys change as `R` says, where `R`
may use that notifications are kept from the first read to the last. -/
theorem scan_of_reads {R : List (Time × Uuid) → List (Time × Uuid) → Prop}
    {responses : List NotificationListResponse}
    (h : PageReads env subscriberId channel limit k s responses s')
    (hR : ∀ t u : State, s.store.KeepsCreated t.store → t.store.KeepsCreated u.store →
      u.store.KeepsCreated s'.store →
      R (t.store.listKeys subscriberId channel) (u.store.listKeys subscriberId channel)) :
    Scan R limit k (s.store.listKeys subscriberId channel) (responses.map (·.keys)) := by
  induction h with
  | last _ _ hshort =>
    rw [← length_keys, listForSubscriber_keys] at hshort
    rw [List.map_singleton, listForSubscriber_keys]
    exact .last hshort
  | @next k s t u s' as bs history responses hread _ hfull hbetween hrest ih =>
    have hgrow := (keepsCreated_of_run hread).trans (keepsCreated_of_run hbetween)
    rw [← length_keys, listForSubscriber_keys] at hfull
    rw [List.map_cons, listForSubscriber_keys]
    refine .next hfull (hR s u (keepsCreated_of_eq rfl) hgrow (keepsCreated_of_reads hrest)) ?_
    exact ih fun t v ht htv hv => hR t v (hgrow.trans ht) htv hv

/-- When no matching notification is added from the first read to the last, the keys stay. -/
theorem listKeys_eq {st₁ st₂ : Store} (h₁ : st.KeepsCreated st₁) (h₁₂ : st₁.KeepsCreated st₂)
    (h₂ : st₂.KeepsCreated st')
    (hsame : st'.listKeys subscriberId channel ⊆ st.listKeys subscriberId channel) :
    st₁.listKeys subscriberId channel = st₂.listKeys subscriberId channel := by
  have hback : st₂.listKeys subscriberId channel ⊆ st₁.listKeys subscriberId channel :=
    fun key hkey => listKeys_subset h₁ (hsame (listKeys_subset h₂ hkey))
  exact (listKeys_sublist h₁₂).antisymm
    (sublist_of_ordered listKeys_ordered listKeys_ordered hback)

/-! ## Paging is complete -/

theorem listKey_mem (hn : n ∈ st.notifications) (h : n.listedFor subscriberId none channel = true) :
    n.listKey ∈ st.listKeys subscriberId channel :=
  List.mem_map.2 ⟨n, mem_listing.2 ⟨hn, h⟩, rfl⟩

theorem pages_flatten {responses : List NotificationListResponse}
    (h : PageReads env subscriberId channel limit 0 s responses s')
    (hsame : s'.store.listKeys subscriberId channel ⊆ s.store.listKeys subscriberId channel) :
    (responses.flatMap (·.items)).map (·.listKey) = s.store.listKeys subscriberId channel := by
  have hscan := scan_of_reads h fun _ _ ht htu hu => listKeys_eq ht htu hu hsame
  have hflat := hscan.flatten fun _ _ heq => heq
  rw [Nat.zero_mul, List.drop_zero] at hflat
  rw [← hflat, List.map_flatMap, List.flatMap_def]
  rfl

theorem listKeys_unchanged (h : st.KeepsCreated st')
    (hnone : ∀ n ∈ st'.notifications, n.listedFor subscriberId none channel = true →
      st.Has n.id) : st'.listKeys subscriberId channel ⊆ st.listKeys subscriberId channel := by
  intro key hkey
  obtain ⟨n', hn', rfl⟩ := List.mem_map.1 hkey
  obtain ⟨hmem, hlisted⟩ := mem_listing.1 hn'
  obtain ⟨n, hn⟩ := hnone n' hmem hlisted
  obtain ⟨m, hm, hsame⟩ := h _ n hn
  obtain rfl := Option.some.inj (hm.symm.trans (Table.get_of_mem hmem))
  have hcreated : n.listedFor subscriberId none channel = true := by
    show n.asCreated.listedFor subscriberId none channel = true
    rw [← hsame]
    exact hlisted
  have hkey : m.listKey = n.listKey := by
    show m.asCreated.listKey = n.asCreated.listKey
    rw [hsame]
  rw [hkey]
  exact listKey_mem (Table.mem_of_get hn) hcreated

/-- **Paging never skips a notification.** Whatever happens between the reads, every notification
that matched at the first is on a page. When none that matches is added, each is on one page, once,
and the pages are strictly ordered. -/
theorem paging_complete {responses : List NotificationListResponse}
    (h : PageReads env subscriberId channel limit 0 s responses s') :
    (∀ n ∈ s.store.notifications, n.listedFor subscriberId none channel = true →
        ∃ r ∈ responses, ∃ item ∈ r.items, item.notificationId = n.id) ∧
      ((∀ n ∈ s'.store.notifications, n.listedFor subscriberId none channel = true →
          s.store.Has n.id) →
        (∀ n ∈ s.store.notifications, n.listedFor subscriberId none channel = true →
          (responses.flatMap (·.items)).countP (·.notificationId = n.id) = 1) ∧
        (responses.flatMap (·.items)).Pairwise fun i j =>
          j.createdAt < i.createdAt ∨
            (j.createdAt = i.createdAt ∧ j.notificationId < i.notificationId)) := by
  refine ⟨fun n hn hlisted => ?_, fun hnone => ?_⟩
  · have hkey : n.listKey ∈ (s.store.listKeys subscriberId channel).drop (0 * limit) := by
      simpa using listKey_mem hn hlisted
    have hscan := scan_of_reads h fun _ _ _ htu _ => listKeys_sublist htu
    obtain ⟨keys, hkeys, hmem⟩ := hscan.mem (fun _ _ hsub => hsub) hkey
    obtain ⟨r, hr, rfl⟩ := List.mem_map.1 hkeys
    obtain ⟨item, hitem, heq⟩ := List.mem_map.1 hmem
    exact ⟨r, hr, item, hitem, congrArg Prod.snd heq⟩
  · have hflat := pages_flatten h (listKeys_unchanged (keepsCreated_of_reads h) hnone)
    refine ⟨fun n hn hlisted => ?_, ?_⟩
    · have hids : (responses.flatMap (·.items)).map (·.notificationId) =
          (s.store.listing subscriberId none channel).map (·.id) := by
        simpa [Store.listKeys, Function.comp_def, Notification.listKey,
          NotificationItem.listKey] using congrArg (List.map Prod.snd) hflat
      have hmem : n.id ∈ (s.store.listing subscriberId none channel).map (·.id) :=
        List.mem_map_of_mem (mem_listing.2 ⟨hn, hlisted⟩)
      have hcount := List.count_eq_one_of_mem listing_ids_nodup hmem
      rw [← hids, List.count_eq_countP, List.countP_map] at hcount
      rw [← hcount]
      refine List.countP_congr fun item _ => ?_
      simp
    · have hordered := hflat ▸ listKeys_ordered
      exact List.pairwise_map.1 hordered

/-- Another notification for the same recipient, created later. -/
def Sample.laterCreation : List Action :=
  [.tick (Sample.sec 5), .request 1 (.submit Sample.request "later"),
    .request 1 (.read (Sample.sec 5) (Sample.sec 5)),
    .request 1 (.commit (· + 10) fun _ => Sample.sec 5)]

/-- With pages of one, a notification is created after the first read: it moves the first one to
the second page, which shows it again. -/
theorem paging_complete_shifted : ∃ (s s' : State) (responses : List NotificationListResponse),
    responses.map (fun r => r.items.map (·.notificationId)) = [[1], [1], []] ∧
      ((∀ n ∈ s.store.notifications, n.listedFor 7 none none = true →
          ∃ r ∈ responses, ∃ item ∈ r.items, item.notificationId = n.id) ∧
        ((∀ n ∈ s'.store.notifications, n.listedFor 7 none none = true → s.store.Has n.id) →
          (∀ n ∈ s.store.notifications, n.listedFor 7 none none = true →
            (responses.flatMap (·.items)).countP (·.notificationId = n.id) = 1) ∧
          (responses.flatMap (·.items)).Pairwise fun i j =>
            j.createdAt < i.createdAt ∨
              (j.createdAt = i.createdAt ∧ j.notificationId < i.notificationId))) := by
  let ids (st : Store) (offset : Nat) : List Uuid :=
    (listForSubscriber st st.orderedHistory 7 none none 1 offset).items.map (·.notificationId)
  obtain ⟨s, -, hs⟩ := Machine.Run.exists_of_exec_always (machine Sample.env) (.initial 0)
    Sample.creation (fun s => ids s.store 0 = [1] &&
      ((machine Sample.env).exec s Sample.laterCreation).any fun s' =>
        ids s'.store 1 = [1] && ids s'.store 2 = []) (by decide)
  rw [Bool.and_eq_true, decide_eq_true_eq] at hs
  obtain ⟨hfirst, hlater⟩ := hs
  obtain ⟨s', hrun, hs'⟩ := Machine.Run.exists_of_exec_always (machine Sample.env) s
    Sample.laterCreation _ hlater
  rw [Bool.and_eq_true, decide_eq_true_eq, decide_eq_true_eq] at hs'
  obtain ⟨hsecond, hthird⟩ := hs'
  have hreads : PageReads Sample.env 7 none 1 0 s
      [listForSubscriber s.store s.store.orderedHistory 7 none none 1 0,
        listForSubscriber s'.store s'.store.orderedHistory 7 none none 1 1,
        listForSubscriber s'.store s'.store.orderedHistory 7 none none 1 2] s' := by
    refine .next .nil (selectsHistory_ordered _) ?_ hrun (.next .nil (selectsHistory_ordered _) ?_
      .nil (.last .nil (selectsHistory_ordered _) ?_))
    · simpa [ids] using congrArg List.length hfirst
    · simpa [ids] using congrArg List.length hsecond
    · simpa [ids] using hthird
  exact ⟨s, s', _, by simp [ids] at hfirst hsecond hthird; simp [hfirst, hsecond, hthird],
    paging_complete hreads⟩

end NotificationSystem
