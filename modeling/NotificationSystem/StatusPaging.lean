import NotificationSystem.FinalStates
import NotificationSystem.Listing

/-!
# Listing the notifications of a status

With a status filter notifications also leave a listing while a client pages through it, and those
that come after them move to smaller offsets. What a client may miss is exactly of this kind, and
a listing of delivered or of dropped notifications misses nothing as long as final states are
final.

* `StatusReads` — a client reads page after page of the notifications of one status.
* `status_paging` — a notification is on a page unless one before it has left.
* `final_paging_complete` — the pages of a final status are complete.
-/

namespace NotificationSystem

open Lib

variable {env : Deployment} {ok : State → Action → Prop} {s t u : State} {st st' : Store}
  {subscriberId : Int} {status : NotificationStatus} {channel : Option NotificationChannel}
  {limit k : Nat} {n m : Notification} {reads : List State}
  {responses : List NotificationListResponse}

/-- The keys of the listing of a status. -/
def Store.statusKeys (st : Store) (subscriberId : Int) (status : NotificationStatus)
    (channel : Option NotificationChannel) : List (Time × Uuid) :=
  (st.listing subscriberId (some status) channel).map (·.listKey)

theorem statusKeys_ordered : (st.statusKeys subscriberId status channel).Pairwise Newer := by
  have hsorted := List.pairwise_insertionSort Notification.listedBefore
    (st.notifications.rows.filter (·.listedFor subscriberId (some status) channel))
  have hids : ((st.listing subscriberId (some status) channel).map (·.id)).Nodup :=
    listing_ids_nodup
  rw [Store.statusKeys, List.pairwise_map]
  refine (List.pairwise_and_iff.2 ⟨hsorted, List.pairwise_map.1 hids⟩).imp ?_
  intro n m ⟨hbefore, hne⟩
  exact hbefore.imp_right fun ⟨htime, hid⟩ => ⟨htime, lt_of_le_of_ne hid hne.symm⟩

theorem listedFor_status : n.listedFor subscriberId (some status) channel = true ↔
    n.status = status ∧ n.listedFor subscriberId none channel = true := by
  simp only [Notification.listedFor, Option.all_some, Option.all_none, Bool.and_true,
    Bool.and_eq_true, decide_eq_true_eq]
  tauto

theorem mem_statusKeys {key : Time × Uuid} : key ∈ st.statusKeys subscriberId status channel ↔
    ∃ n ∈ st.notifications, n.listedFor subscriberId (some status) channel = true ∧
      n.listKey = key := by
  constructor
  · intro hkey
    obtain ⟨n, hn, rfl⟩ := List.mem_map.1 hkey
    exact ⟨n, (mem_listing.1 hn).1, (mem_listing.1 hn).2, rfl⟩
  · rintro ⟨n, hn, hlisted, rfl⟩
    exact List.mem_map.2 ⟨n, mem_listing.2 ⟨hn, hlisted⟩, rfl⟩

theorem statusPage_keys {history : Uuid → List NotificationStatusHistory} {offset : Nat} :
    (listForSubscriber st history subscriberId (some status) channel limit offset).keys =
      page (st.statusKeys subscriberId status channel) limit offset := by
  simp [NotificationListResponse.keys, listForSubscriber, Store.statusKeys, page, List.map_take,
    List.map_drop, Function.comp_def, toItem, NotificationItem.listKey, Notification.listKey]

/-- A client reads the pages of the notifications of a status from the `k`-th on, each from one of
the states `reads`, until one has fewer than `limit` items. Between the reads, and between the two
queries of a read, the system takes any steps that meet `ok`. -/
inductive StatusReads (env : Deployment) (ok : State → Action → Prop) (subscriberId : Int)
    (status : NotificationStatus) (channel : Option NotificationChannel) (limit : Nat) :
    Nat → List State → List NotificationListResponse → Prop
  | last {k : Nat} {s t : State} {as : List Action}
      {history : Uuid → List NotificationStatusHistory} :
      (machine env).Run ok s as t → t.store.SelectsHistory history →
      (listForSubscriber s.store history subscriberId (some status) channel limit
        (k * limit)).items.length < limit →
      StatusReads env ok subscriberId status channel limit k [s]
        [listForSubscriber s.store history subscriberId (some status) channel limit (k * limit)]
  | next {k : Nat} {s t u : State} {as bs : List Action} {reads : List State}
      {history : Uuid → List NotificationStatusHistory}
      {responses : List NotificationListResponse} :
      (machine env).Run ok s as t → t.store.SelectsHistory history →
      (listForSubscriber s.store history subscriberId (some status) channel limit
        (k * limit)).items.length = limit →
      (machine env).Run ok t bs u →
      StatusReads env ok subscriberId status channel limit (k + 1) (u :: reads) responses →
      StatusReads env ok subscriberId status channel limit k (s :: u :: reads)
        (listForSubscriber s.store history subscriberId (some status) channel limit (k * limit) ::
          responses)

/-- From `t` to `u` a notification that is listed before `n`, or `n` itself, gets another
status. -/
def LeavesBefore (subscriberId : Int) (status : NotificationStatus)
    (channel : Option NotificationChannel) (n : Notification) (t u : State) : Prop :=
  ∃ m ∈ t.store.notifications, m.listedFor subscriberId (some status) channel = true ∧
    m.listedBefore n ∧ ∃ m', u.store.notifications.get m.id = some m' ∧ m'.status ≠ status

theorem keepsAhead_of_stays (h : t.store.KeepsCreated u.store)
    (hstay : ¬ LeavesBefore subscriberId status channel n t u) :
    KeepsAhead Newer n.listKey (t.store.statusKeys subscriberId status channel)
      (u.store.statusKeys subscriberId status channel) := by
  refine ⟨statusKeys_ordered, statusKeys_ordered, fun key hkey hahead => ?_⟩
  obtain ⟨m, hm, hlisted, rfl⟩ := mem_statusKeys.1 hkey
  have hbefore : m.listedBefore n := by
    rcases hahead with heq | hnewer
    · exact .inr ⟨(congrArg Prod.fst heq).symm, (congrArg Prod.snd heq).ge⟩
    · exact hnewer.imp_right fun ⟨htime, hid⟩ => ⟨htime, hid.le⟩
  obtain ⟨m', hget, hsame⟩ := h m.id m (Table.get_of_mem hm)
  have hstatus : m'.status = status := by
    by_contra hne
    exact hstay ⟨m, hm, hlisted, hbefore, m', hget, hne⟩
  refine mem_statusKeys.2 ⟨m', Table.mem_of_get hget, ?_, ?_⟩
  · refine listedFor_status.2 ⟨hstatus, ?_⟩
    rw [Notification.column_eq hsame (·.listedFor subscriberId none channel)]
    exact (listedFor_status.1 hlisted).2
  · exact Notification.column_eq hsame (·.listKey)

/-- While no notification before `n` leaves, the reads are a scan that keeps what is ahead. -/
theorem scan_of_statusReads (h : StatusReads env ok subscriberId status channel limit k reads
    responses)
    (hstay : ∀ t u, [t, u] <:+: reads → ¬ LeavesBefore subscriberId status channel n t u) :
    ∃ s, reads.head? = some s ∧ Scan (KeepsAhead Newer n.listKey) limit k
      (s.store.statusKeys subscriberId status channel) (responses.map (·.keys)) := by
  induction h with
  | @last k s t as history _ _ hshort =>
    refine ⟨s, rfl, ?_⟩
    rw [← length_keys, statusPage_keys] at hshort
    rw [List.map_singleton, statusPage_keys]
    exact .last hshort
  | @next k s t u as bs reads history responses hread _ hfull hbetween hrest ih =>
    refine ⟨s, rfl, ?_⟩
    obtain ⟨u', hu', hscan⟩ := ih fun t' u' hpair =>
      hstay t' u' (hpair.trans (List.suffix_cons s _).isInfix)
    obtain rfl := Option.some.inj hu'
    have hgrow := (keepsCreated_of_run hread).trans (keepsCreated_of_run hbetween)
    rw [← length_keys, statusPage_keys] at hfull
    rw [List.map_cons, statusPage_keys]
    refine .next hfull (keepsAhead_of_stays hgrow (hstay s u ?_)) hscan
    exact ⟨[], reads, rfl⟩

/-- **What paging through a status misses.** Every notification that matched at the first read is on
a page, unless between two of the reads it, or one that is listed before it, gets another status. -/
theorem status_paging (h : StatusReads env ok subscriberId status channel limit 0 (s :: reads)
    responses) (hn : n ∈ s.store.notifications)
    (hlisted : n.listedFor subscriberId (some status) channel = true) :
    (∃ r ∈ responses, ∃ item ∈ r.items, item.notificationId = n.id) ∨
      ∃ t u, [t, u] <:+: s :: reads ∧ LeavesBefore subscriberId status channel n t u := by
  by_cases hleave : ∃ t u, [t, u] <:+: s :: reads ∧ LeavesBefore subscriberId status channel n t u
  · exact .inr hleave
  · obtain ⟨s', hs', hscan⟩ := scan_of_statusReads h fun t u hpair hleaves =>
      hleave ⟨t, u, hpair, hleaves⟩
    obtain rfl := Option.some.inj hs'
    have hkey : n.listKey ∈ (s.store.statusKeys subscriberId status channel).drop (0 * limit) := by
      simpa using mem_statusKeys.2 ⟨n, hn, hlisted, rfl⟩
    obtain ⟨keys, hkeys, hmem⟩ := hscan.mem_of_ahead hkey
    obtain ⟨r, hr, rfl⟩ := List.mem_map.1 hkeys
    obtain ⟨item, hitem, heq⟩ := List.mem_map.1 hmem
    exact .inl ⟨r, hr, item, hitem, congrArg Prod.snd heq⟩

/-- The creation event of `laterCreation` is published. -/
def Sample.laterPublication : List Action :=
  [.publisher 1 (.claim (Sample.sec 6) (Sample.sec 6) (Sample.sec 6) []), .publisher 1 .load,
    .publisher 1 .publish, .publisher 1 (.record (Sample.sec 6))]

def Sample.laterMessage : Message :=
  ⟨13, .created, (createdEvent request (· + 10) (fun _ => sec 5) 0 7).payload⟩

/-- Two notifications are queued. A client reads the first with pages of one; before it reads on,
an attempt for that one begins, and the second page is empty: the client never sees the other. -/
theorem status_paging_missed : ∃ (s u : State) (n : Notification)
    (responses : List NotificationListResponse),
    s.store.notifications.get 1 = some n ∧
      responses.map (fun r => r.items.map (·.notificationId)) = [[11], []] ∧
      ((∃ r ∈ responses, ∃ item ∈ r.items, item.notificationId = n.id) ∨
        ∃ t v, [t, v] <:+: [s, u] ∧ LeavesBefore 7 .queued none n t v) := by
  let ids (st : Store) (offset : Nat) : List Uuid :=
    (listForSubscriber st st.orderedHistory 7 (some .queued) none 1 offset).items.map
      (·.notificationId)
  let begin : List Action := [.worker 0 (.get .high Sample.laterMessage),
    .worker 0 (.reserve (Sample.sec 6) (Sample.sec 6) (Sample.sec 6) ⟨14, 15⟩)]
  obtain ⟨s, -, hs⟩ := Machine.Run.exists_of_exec_always (machine Sample.env) (.initial 0)
    (Sample.creation ++ Sample.publication ++ Sample.laterCreation ++ Sample.laterPublication)
    (fun s => (ids s.store 0 = [11] && (s.store.notifications.get 1).any fun n =>
        n.listedFor 7 (some .queued) none) &&
      ((machine Sample.env).exec s begin).any fun u => ids u.store 1 = []) (by decide)
  rw [Bool.and_eq_true, Bool.and_eq_true, decide_eq_true_eq] at hs
  obtain ⟨⟨hfirst, hrow⟩, hbegin⟩ := hs
  obtain ⟨n, hn, hlisted⟩ := (Option.any_eq_true _ _).1 hrow
  obtain ⟨u, hrun, hu⟩ := Machine.Run.exists_of_exec_always (machine Sample.env) s begin _ hbegin
  rw [decide_eq_true_eq] at hu
  have hreads : StatusReads Sample.env Machine.Always 7 .queued none 1 0 [s, u]
      [listForSubscriber s.store s.store.orderedHistory 7 (some .queued) none 1 0,
        listForSubscriber u.store u.store.orderedHistory 7 (some .queued) none 1 1] := by
    refine .next .nil (selectsHistory_ordered _) ?_ hrun
      (.last .nil (selectsHistory_ordered _) ?_)
    · simpa [ids] using congrArg List.length hfirst
    · simpa [ids] using hu
  exact ⟨s, u, n, _, hn, by simp [ids] at hfirst hu; simp [hfirst, hu],
    status_paging hreads (Table.mem_of_get hn) hlisted⟩

/-! ## Final states -/

theorem run_of_reads (h : StatusReads env ok subscriberId status channel limit k reads responses)
    (hs : ∀ s, reads.head? = some s → (machine env).Reach ok s) (hpair : [t, u] <:+: reads) :
    (machine env).Reach ok t ∧ ∃ as, (machine env).Run ok t as u := by
  induction h with
  | last =>
    have hlen := hpair.length_le
    simp at hlen
  | @next k s t' u' as bs reads history responses hread _ _ hbetween _ ih =>
    have hreach := hs s rfl
    rcases List.infix_cons_iff.1 hpair with hprefix | htail
    · obtain ⟨rfl, hrest⟩ := List.cons_prefix_cons.1 hprefix
      obtain ⟨rfl, -⟩ := List.cons_prefix_cons.1 hrest
      exact ⟨hreach, _, hread.trans hbetween⟩
    · refine ih (fun v hv => ?_) htail
      obtain rfl := Option.some.inj hv
      exact (hreach.run hread).run hbetween

/-- **The pages of a final status are complete**, where every result is applied to an open
notification. -/
theorem final_paging_complete (hs : (machine env).Reach (AppliesToOpen env) s)
    (h : StatusReads env (AppliesToOpen env) subscriberId status channel limit 0 (s :: reads)
      responses) (hfinal : status = .delivered ∨ status = .dropped) :
    ∀ n ∈ s.store.notifications, n.listedFor subscriberId (some status) channel = true →
      ∃ r ∈ responses, ∃ item ∈ r.items, item.notificationId = n.id := by
  intro n hn hlisted
  rcases status_paging h hn hlisted with hpage | ⟨t, u, hpair, m, hm, hm', -, m', hget, hne⟩
  · exact hpage
  · exfalso
    obtain ⟨ht, as, hrun⟩ := run_of_reads h (fun v hv => Option.some.inj hv ▸ hs) hpair
    have hstatus : m.status = status := (listedFor_status.1 hm').1
    have hfin : m.isFinal = true := by
      rcases hfinal with rfl | rfl <;> simp [Notification.isFinal, hstatus]
    obtain ⟨hreport, -, -⟩ := final_absorbing ht (Table.get_of_mem hm) hfin hrun
    simp only [State.lifecycle, hget, Table.get_of_mem hm, Option.map_some, Option.some.injEq,
      Notification.report, Prod.mk.injEq] at hreport
    exact hne (hreport.1.trans hstatus)

/-- The test that a result is applied to an open notification. -/
def appliesToOpen (s : State) : Action → Bool
  | .worker w (.apply ..) => (s.workers w).flight?.all fun f =>
      (s.store.notifications.get f.loaded.id).any (!·.isFinal)
  | _ => true

theorem of_appliesToOpen {a : Action} (h : appliesToOpen s a = true) : AppliesToOpen env s a := by
  unfold AppliesToOpen
  split
  · intro f result hf _
    simp only [appliesToOpen, hf, Option.all_some] at h
    obtain ⟨n, hn, hopen⟩ := (Option.any_eq_true _ _).1 h
    exact .inl ⟨n, hn, by simpa using hopen⟩
  · trivial

/-- The sample's notification is delivered. Between the two reads its message is delivered again,
and the notification stays where it is. -/
theorem final_paging_complete_delivered : ∃ (s : State) (responses : List NotificationListResponse),
    responses.map (fun r => r.items.map (·.notificationId)) = [[1], []] ∧
      ∀ n ∈ s.store.notifications, n.listedFor 7 (some .delivered) none = true →
        ∃ r ∈ responses, ∃ item ∈ r.items, item.notificationId = n.id := by
  let ids (st : Store) (offset : Nat) : List Uuid :=
    (listForSubscriber st st.orderedHistory 7 (some .delivered) none 1 offset).items.map
      (·.notificationId)
  let again : List Action := [.worker 0 (.disconnect false), .worker 1 (.get .high Sample.message),
    .worker 1 (.reserve (Sample.sec 6) (Sample.sec 6) (Sample.sec 6) ⟨6, 7⟩)]
  obtain ⟨s, hs, hpage⟩ := Machine.Run.exists_of_execChecked (machine Sample.env)
    (AppliesToOpen Sample.env) appliesToOpen (.initial 0)
    (Sample.attempt ++ [.worker 0 .send, .worker 0 (.answer Sample.deliveredResult),
      .worker 0 (.apply (Sample.sec 5) (Sample.sec 5) ⟨4, 5⟩)])
    (fun s => ids s.store 0 = [1] &&
      ((machine Sample.env).exec s again).any fun u => ids u.store 1 = [])
    (fun _ _ => of_appliesToOpen) (by decide)
  rw [Bool.and_eq_true, decide_eq_true_eq] at hpage
  obtain ⟨hfirst, hagain⟩ := hpage
  obtain ⟨u, hrun, hu⟩ := Machine.Run.exists_of_exec _ (AppliesToOpen Sample.env) s again _
    (by simp [again, AppliesToOpen]) hagain
  rw [decide_eq_true_eq] at hu
  have hreads : StatusReads Sample.env (AppliesToOpen Sample.env) 7 .delivered none 1 0 [s, u]
      [listForSubscriber s.store s.store.orderedHistory 7 (some .delivered) none 1 0,
        listForSubscriber u.store u.store.orderedHistory 7 (some .delivered) none 1 1] := by
    refine .next .nil (selectsHistory_ordered _) ?_ hrun
      (.last .nil (selectsHistory_ordered _) ?_)
    · simpa [ids] using congrArg List.length hfirst
    · simpa [ids] using hu
  exact ⟨s, _, by simp [ids] at hfirst hu; simp [hfirst, hu],
    final_paging_complete (.run (.init ⟨0, rfl⟩) hs) hreads (.inl rfl)⟩

end NotificationSystem
