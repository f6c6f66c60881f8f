import NotificationSystem.Listing
import NotificationSystem.ProviderCalls

/-!
# Reading a notification

`get_notification`, and `list_for_subscriber` for each of its items, select the row and then, in a
second query, its history. Any steps may come between the two, so the history that a client is
shown may be ahead of the row. It never lags behind. The history is ordered by its dates, which
leaves the order of ties open.

* `Shown` — an item of a response.
* `history_accounts` — the history accounts for the row that was read before it.
* `reads_monotonic` — a later response extends an earlier one.
-/

namespace NotificationSystem

open Lib

variable {env : Deployment} {s t u v : State} {a : Action} {id : Uuid} {n : Notification}
  {l l' : Lifecycle} {item item' : NotificationItem}

/-- `get_notification`: the row is selected from `st`, and the second query has returned `history`.
The API answers `none` with a 404. -/
def getNotification (st : Store) (history : Uuid → List NotificationStatusHistory)
    (notificationId : Uuid) : Option NotificationItem :=
  (st.notifications.get notificationId).map (toItem history)

/-- An item of a response, of `get_notification` or of a page of `list_for_subscriber`, whose first
query read `s`, and whose second read `t`. -/
def Shown (env : Deployment) (s t : State) (item : NotificationItem) : Prop :=
  ∃ as history, (machine env).Run Machine.Always s as t ∧ t.store.SelectsHistory history ∧
    ((∃ id, getNotification s.store history id = some item) ∨
      ∃ subscriberId status channel limit offset, item ∈
        (listForSubscriber s.store history subscriberId status channel limit offset).items)

/-- Both functions show a row that the first query read, with the history that the second did. -/
theorem Shown.row (h : Shown env s t item) : ∃ as history n,
    (machine env).Run Machine.Always s as t ∧ t.store.SelectsHistory history ∧
      s.store.notifications.get n.id = some n ∧ item = toItem history n := by
  obtain ⟨as, history, hrun, hselects, hshown⟩ := h
  refine ⟨as, history, ?_⟩
  rcases hshown with ⟨id, hget⟩ | ⟨subscriberId, status, channel, limit, offset, hmem⟩
  · obtain ⟨n, hn, rfl⟩ := Option.map_eq_some_iff.1 hget
    have hid : n.id = id := Table.get_key hn
    subst hid
    exact ⟨n, hrun, hselects, hn, rfl⟩
  · obtain ⟨n, hn, rfl⟩ := List.mem_map.1 hmem
    have hlisted : n ∈ s.store.listing subscriberId status channel :=
      List.mem_of_mem_drop (List.mem_of_mem_take hn)
    exact ⟨n, hrun, hselects, Table.get_of_mem (mem_listing.1 hlisted).1, rfl⟩

/-! ## The history -/

/-- What a step makes of the history: it stays, it begins with the creation, or it gets one more
row. -/
inductive Lifecycle.HistoryStep (l l' : Lifecycle) : Prop
  | kept : l'.history = l.history → HistoryStep l l'
  | begun {first : NotificationStatusHistory} : l.history = [] → l'.history = [first] →
      first.status = .queued → first.errorMessage = none → first.createdAt ≤ l'.now →
      HistoryStep l l'
  | added {row : NotificationStatusHistory} : l.row ≠ none → l'.history = l.history ++ [row] →
      row.status ≠ .queued → l.now ≤ row.createdAt → row.createdAt ≤ l'.now → HistoryStep l l'

theorem Lifecycle.Step.history {cfg : Settings} (h : l.Step cfg a l') :
    l.now ≤ l'.now ∧ l.HistoryStep l' := by
  cases h with
  | quiet hnow _ hh => exact ⟨hnow, .kept hh⟩
  | create _ hnone _ _ _ hstamp => exact ⟨le_rfl, .begun hnone rfl rfl rfl hstamp⟩
  | call => exact ⟨le_rfl, .kept rfl⟩
  | defer h₁ h₂ h₃ => exact ⟨h₁.trans (h₂.trans h₃), .kept rfl⟩
  | retry h₁ h₂ => exact ⟨h₁.trans h₂, .kept rfl⟩
  | reserve h₁ h₂ h₃ hrow | refuse h₁ h₂ h₃ hrow =>
    have hnow := h₁.trans (h₂.trans h₃)
    exact ⟨hnow, .added (by simp [hrow]) rfl nofun hnow le_rfl⟩
  | deliver h₁ h₂ _ _ _ hrow =>
    exact ⟨h₁.trans h₂, .added (by simp [hrow]) rfl nofun (h₁.trans h₂) le_rfl⟩
  | drop h₁ h₂ _ _ _ _ hrow =>
    exact ⟨h₁.trans h₂, .added (by simp [hrow]) rfl nofun (h₁.trans h₂) le_rfl⟩

theorem Lifecycle.HistoryStep.isPrefix (h : l.HistoryStep l') : l.history <+: l'.history := by
  cases h with
  | kept hh => rw [hh]
  | begun hnone => rw [hnone]; exact List.nil_prefix
  | added _ hh => rw [hh]; exact List.prefix_append _ _

/-- The history of a notification begins with its only `queued` row, and names the status that the
row has. Its rows are dated in commit order. -/
structure Lifecycle.Accounts (l : Lifecycle) : Prop where
  first : l.history = [] ∨ ∃ first rest, l.history = first :: rest ∧ first.status = .queued ∧
    first.errorMessage = none ∧ ∀ row ∈ rest, row.status ≠ .queued
  status : ∀ n, l.row = some n → ∃ row ∈ l.history, row.status = n.status
  ordered : l.history.Pairwise fun x y => x.createdAt ≤ y.createdAt
  recent : ∀ row ∈ l.history, row.createdAt ≤ l.now

theorem accounts_initial (now : Time) : (Lifecycle.initial now).Accounts where
  first := .inl rfl
  status _ h := by cases h
  ordered := List.Pairwise.nil
  recent _ h := by cases h

theorem names_step {cfg : Settings} (hs : l.Sound) (hl : l.Accounts) (h : l.Step cfg a l') :
    ∀ n, l'.row = some n → ∃ row ∈ l'.history, row.status = n.status := by
  have hextends := h.history.2.isPrefix
  have same {m : Notification} (hm : l.row = some m) {k : Notification}
      (hstatus : k.status = m.status) : ∃ row ∈ l'.history, row.status = k.status := by
    obtain ⟨row, hrow, heq⟩ := hl.status m hm
    exact ⟨row, hextends.subset hrow, heq.trans hstatus.symm⟩
  cases h with
  | quiet _ hrow => exact fun m hm => same (hrow ▸ hm) rfl
  | create =>
    rintro _ ⟨⟩
    exact ⟨_, List.mem_singleton_self _, rfl⟩
  | call | defer => exact fun m hm => same hm rfl
  | reserve _ _ _ hrow | refuse _ _ _ hrow =>
    rintro _ ⟨⟩
    exact ⟨_, List.mem_append_right _ (List.mem_singleton_self _), rfl⟩
  | deliver _ _ hf _ _ hrow =>
    rintro _ ⟨⟩
    refine ⟨_, List.mem_append_right _ (List.mem_singleton_self _), ?_⟩
    simp [Notification.writeBack, Notification.markedDelivered, writeColumn,
      (hs.flights _ _ hf).1]
  | retry _ _ _ _ _ _ hrow =>
    rintro _ ⟨⟩
    exact same hrow (by simp [Notification.writeBack, Notification.awaitingRetry,
      Notification.withError])
  | drop _ _ hf _ _ _ hrow =>
    rintro _ ⟨⟩
    refine ⟨_, List.mem_append_right _ (List.mem_singleton_self _), ?_⟩
    simp [Notification.writeBack, Notification.droppedByResult, writeColumn,
      (hs.flights _ _ hf).1]

theorem accounts_step {cfg : Settings} (hs : l.Sound) (hl : l.Accounts) (h : l.Step cfg a l') :
    l'.Accounts := by
  have hstatus := names_step hs hl h
  obtain ⟨hnow, hhistory⟩ := h.history
  have hrecent (row : NotificationStatusHistory) (hrow : row ∈ l.history) :
      row.createdAt ≤ l'.now := (hl.recent row hrow).trans hnow
  cases hhistory with
  | kept hh => exact ⟨hh ▸ hl.first, hstatus, hh ▸ hl.ordered, hh ▸ hrecent⟩
  | begun _ hh hqueued herror hdate =>
    refine ⟨.inr ⟨_, [], hh, hqueued, herror, fun row h => by cases h⟩, hstatus, ?_, ?_⟩
    · rw [hh]
      exact List.pairwise_singleton _ _
    · rw [hh]
      exact fun row hrow => List.mem_singleton.1 hrow ▸ hdate
  | @added new hrow hh hnew hold hdate =>
    refine ⟨.inr ?_, hstatus, ?_, ?_⟩
    · obtain ⟨n, hn⟩ := Option.ne_none_iff_exists'.1 hrow
      obtain ⟨row, hmem, -⟩ := hl.status n hn
      obtain ⟨first, rest, heq, hqueued, herror, hrest⟩ :=
        hl.first.resolve_left (List.ne_nil_of_mem hmem)
      refine ⟨first, rest ++ [new], by rw [hh, heq]; rfl, hqueued, herror, fun row hrow => ?_⟩
      rcases List.mem_append.1 hrow with hrow | hrow
      · exact hrest row hrow
      · exact List.mem_singleton.1 hrow ▸ hnew
    · rw [hh, List.pairwise_append]
      refine ⟨hl.ordered, List.pairwise_singleton _ _, fun row hrow row' hrow' => ?_⟩
      rw [List.mem_singleton.1 hrow']
      exact (hl.recent row hrow).trans hold
    · rw [hh]
      intro row hrow
      rcases List.mem_append.1 hrow with hrow | hrow
      · exact hrecent row hrow
      · exact List.mem_singleton.1 hrow ▸ hdate

theorem accounts_reach {ok : State → Action → Prop} (h : (machine env).Reach ok s) (id : Uuid) :
    (s.lifecycle id).Accounts :=
  lifecycle_induct accounts_initial
    (fun _ _ _ ht _ hl hstep => accounts_step (sound_reach ht id) hl hstep) h

/-- Along a run the history is only added to, and the attempts only counted up. -/
theorem grows_of_run {ok : State → Action → Prop} {as : List Action}
    (hs : (machine env).Reach ok s) (hrun : (machine env).Run ok s as t) (id : Uuid) :
    s.store.historyOf id <+: t.store.historyOf id ∧
      (s.lifecycle id).attempts ≤ (t.lifecycle id).attempts :=
  lifecycle_run (I := fun l => (s.lifecycle id).history <+: l.history ∧
      (s.lifecycle id).attempts ≤ l.attempts) hs ⟨List.prefix_rfl, le_rfl⟩
    (fun _ _ _ _ _ hl hstep =>
      ⟨hl.1.trans hstep.history.2.isPrefix, hl.2.trans hstep.attempts_le⟩) hrun

/-! ## What a client is shown -/

/-- **The history accounts for the row.** It is ordered by `created_at`, and only ties come before
its only `queued` entry. It contains the current status and has an entry for each attempt; where
nothing came between the two queries, it has exactly that many. -/
theorem history_accounts (h : (machine env).Reach Machine.Always s) (hitem : Shown env s t item) :
    item.history.Pairwise (fun x y => x.createdAt ≤ y.createdAt) ∧
      (∃ before first after, item.history = before ++ first :: after ∧ first.status = .queued ∧
        first.errorMessage = none ∧ (∀ entry ∈ before, entry.createdAt = first.createdAt) ∧
        ∀ entry ∈ before ++ after, entry.status ≠ .queued) ∧
      (∃ entry ∈ item.history, entry.status = item.currentStatus) ∧
      item.attempts ≤ item.history.countP (·.status = .sent) ∧
      (s.store.history = t.store.history →
        item.attempts = item.history.countP (·.status = .sent)) := by
  obtain ⟨as, history, n, hrun, hselects, hn, rfl⟩ := hitem.row
  have hrow : (s.lifecycle n.id).row = some n := hn
  have hgrows := (grows_of_run h hrun n.id).1
  have hrows := hselects n.id
  have haccounts := accounts_reach (h.run hrun) n.id
  obtain ⟨row, hmem, hstatus⟩ := (accounts_reach h n.id).status n hrow
  have hnow : row ∈ t.store.historyOf n.id := hgrows.subset hmem
  have hcount : (toItem history n).history.countP (·.status = .sent) =
      (t.store.historyOf n.id).countP (·.status = .sent) := by
    rw [toItem, List.countP_map, ← hrows.perm.countP_eq]
    rfl
  have hsent : n.attempts = (s.store.historyOf n.id).countP (·.status = .sent) := by
    have hcounted := (counted_reach h n.id).sent
    rw [Lifecycle.attempts, hrow] at hcounted
    exact hcounted.symm
  refine ⟨List.pairwise_map.2 hrows.ordered, ?_, ?_, ?_, fun hsame => ?_⟩
  · obtain ⟨first, rest, heq, hqueued, herror, hrest⟩ :=
      haccounts.first.resolve_left (List.ne_nil_of_mem hnow)
    have hfirst : t.store.historyOf n.id = first :: rest := heq
    have hordered := haccounts.ordered
    rw [heq, List.pairwise_cons] at hordered
    obtain ⟨before, after, hsplit, hties⟩ := hrows.split (a := first)
      (by rw [hfirst]; exact List.mem_cons_self) fun x hx => by
        rw [hfirst] at hx
        rcases List.mem_cons.1 hx with rfl | hx
        · exact le_rfl
        · exact hordered.1 x hx
    -- the other rows are those after the first in commit order
    have hothers : (before ++ after).Perm rest := by
      have hperm := hrows.perm
      rw [hsplit, hfirst] at hperm
      exact (List.perm_middle.symm.trans hperm).cons_inv
    refine ⟨before.map fun x => ⟨x.status, x.errorMessage, x.createdAt⟩,
      ⟨first.status, first.errorMessage, first.createdAt⟩,
      after.map fun x => ⟨x.status, x.errorMessage, x.createdAt⟩, ?_, hqueued, herror, ?_, ?_⟩
    · simp [toItem, hsplit]
    · intro entry hentry
      obtain ⟨x, hx, rfl⟩ := List.mem_map.1 hentry
      exact hties x hx
    · rw [← List.map_append]
      intro entry hentry
      obtain ⟨x, hx, rfl⟩ := List.mem_map.1 hentry
      exact hrest x (hothers.mem_iff.1 hx)
  · exact ⟨_, List.mem_map_of_mem (hrows.mem.2 hnow), hstatus⟩
  · rw [hcount, show (toItem history n).attempts = n.attempts from rfl, hsent]
    exact hgrows.sublist.countP_le
  · rw [hcount, show (toItem history n).attempts = n.attempts from rfl, hsent, Store.historyOf,
      Store.historyOf, hsame]

/-- What the second query returns later has the rows of before, with the same column of dates, and
in the same order when no two dates are equal. -/
theorem history_extends {as : List Action}
    {history history' : Uuid → List NotificationStatusHistory}
    (h : (machine env).Reach Machine.Always t) (hrun : (machine env).Run Machine.Always t as v)
    (hselects : t.store.SelectsHistory history) (hselects' : v.store.SelectsHistory history')
    (id : Uuid) : (history id).Subperm (history' id) ∧
      (history id).map (·.createdAt) <+: (history' id).map (·.createdAt) ∧
      (((history' id).map (·.createdAt)).Nodup → history id <+: history' id) := by
  have hgrows := (grows_of_run h hrun id).1
  have hkeys := (hselects id).keys (accounts_reach h id).ordered
  have hordered' := (accounts_reach (h.run hrun) id).ordered
  have hkeys' := (hselects' id).keys hordered'
  refine ⟨?_, ?_, fun hnd => ?_⟩
  · exact (hselects id).perm.subperm.trans
      (hgrows.sublist.subperm.trans (hselects' id).perm.symm.subperm)
  · rw [hkeys, hkeys']
    exact hgrows.map _
  · rw [hkeys'] at hnd
    rw [(hselects' id).eq hordered' hnd,
      (hselects id).eq (accounts_reach h id).ordered (hnd.sublist (hgrows.sublist.map _))]
    exact hgrows

/-- **Reads are monotonic.** What a client has been shown, it finds again whenever it asks later,
the same notification with at least as many attempts, and with a history that has every entry of
the earlier one. Its dates extend the earlier ones, and when no two of them are equal, so does the
history. -/
theorem reads_monotonic {as bs : List Action} (h : (machine env).Reach Machine.Always s)
    (hitem : Shown env s t item) (hrun : (machine env).Run Machine.Always t as u)
    (hrun' : (machine env).Run Machine.Always u bs v) :
    (∀ history, v.store.SelectsHistory history →
        ∃ item', getNotification u.store history item.notificationId = some item') ∧
      ∀ item', Shown env u v item' → item'.notificationId = item.notificationId →
        item.history.Subperm item'.history ∧
          item.history.map (·.createdAt) <+: item'.history.map (·.createdAt) ∧
          ((item'.history.map (·.createdAt)).Nodup → item.history <+: item'.history) ∧
          item.attempts ≤ item'.attempts ∧
          item'.batchId = item.batchId ∧ item'.subscriberId = item.subscriberId ∧
          item'.channel = item.channel ∧ item'.type = item.type ∧
          item'.message = item.message ∧ item'.createdAt = item.createdAt := by
  obtain ⟨cs, history, n, hread, hselects, hn, rfl⟩ := hitem.row
  have hrow : (s.lifecycle n.id).row = some n := hn
  have htoU := hread.trans hrun
  obtain ⟨m, hm, hsame⟩ := keepsCreated_of_run htoU n.id n hn
  refine ⟨fun history' _ => ⟨toItem history' m, congrArg (Option.map _) hm⟩, ?_⟩
  intro item' hitem' hid
  obtain ⟨ds, history', k, -, hselects', hk, rfl⟩ := hitem'.row
  have hkid : k.id = n.id := hid
  obtain rfl : m = k := Option.some.inj (hm.symm.trans (hkid ▸ hk))
  obtain ⟨hsub, hdates, hextends⟩ :=
    history_extends (h.run hread) (hrun.trans hrun') hselects hselects' n.id
  have hattempts := (grows_of_run h htoU n.id).2
  rw [Lifecycle.attempts, Lifecycle.attempts, hrow,
    show (u.lifecycle n.id).row = some m from hm] at hattempts
  refine ⟨?_, ?_, ?_, hattempts, Notification.column_eq hsame (·.batchId),
    Notification.column_eq hsame (·.subscriberId), Notification.column_eq hsame (·.channel),
    Notification.column_eq hsame (·.type), Notification.column_eq hsame (·.message),
    Notification.column_eq hsame (·.createdAt)⟩
  · obtain ⟨rows, hperm, hsublist⟩ := hsub
    simp only [toItem, hkid]
    exact ⟨_, hperm.map _, hsublist.map _⟩
  · simpa [toItem, hkid, Function.comp_def] using hdates
  · simp only [toItem, hkid, List.map_map, Function.comp_def]
    exact fun hnd => (hextends hnd).map _

theorem Sample.torn_read : ∃ (s t : State) (item : NotificationItem),
    (machine Sample.env).Reach Machine.Always s ∧ Shown Sample.env s t item ∧
      item.currentStatus = .queued ∧ item.history.map (·.status) = [.queued, .sent] ∧
      (item.history.map (·.createdAt)).Nodup := by
  obtain ⟨s, hrun, hs⟩ := Machine.Run.exists_of_exec_always (machine Sample.env) (.initial 0)
    (creation ++ publication)
    (fun s => ((machine Sample.env).exec s [.worker 0 (.get .high message),
      .worker 0 (.reserve 0 0 (sec 1) ⟨4, 5⟩)]).any fun t =>
        (getNotification s.store t.store.orderedHistory 1).any fun item =>
          item.currentStatus = .queued && item.history.map (·.status) = [.queued, .sent] &&
            (item.history.map (·.createdAt)).Nodup) (by decide)
  obtain ⟨t, hrun', ht⟩ := Machine.Run.exists_of_exec_always (machine Sample.env) s _ _ hs
  obtain ⟨item, hitem, hshows⟩ := (Option.any_eq_true _ _).1 ht
  simp only [Bool.and_eq_true, decide_eq_true_eq] at hshows
  exact ⟨s, t, item, ⟨_, _, ⟨0, rfl⟩, hrun⟩,
    ⟨_, _, hrun', selectsHistory_ordered _, .inl ⟨1, hitem⟩⟩, hshows.1.1, hshows.1.2, hshows.2⟩

theorem history_accounts_torn : ∃ (s t : State) (item : NotificationItem),
    item.currentStatus = .queued ∧ item.history.map (·.status) = [.queued, .sent] ∧
      item.history.Pairwise (fun x y => x.createdAt ≤ y.createdAt) ∧
      (∃ before first after, item.history = before ++ first :: after ∧ first.status = .queued ∧
        first.errorMessage = none ∧ (∀ entry ∈ before, entry.createdAt = first.createdAt) ∧
        ∀ entry ∈ before ++ after, entry.status ≠ .queued) ∧
      (∃ entry ∈ item.history, entry.status = item.currentStatus) ∧
      item.attempts ≤ item.history.countP (·.status = .sent) ∧
      (s.store.history = t.store.history →
        item.attempts = item.history.countP (·.status = .sent)) := by
  obtain ⟨s, t, item, hs, hitem, hstatus, hhistory, -⟩ := Sample.torn_read
  exact ⟨s, t, item, hstatus, hhistory, history_accounts hs hitem⟩

theorem reads_monotonic_torn : ∃ (t : State) (item : NotificationItem),
    item.currentStatus = .queued ∧ item.history.map (·.status) = [.queued, .sent] ∧
      (item.history.map (·.createdAt)).Nodup ∧
      (∀ history, t.store.SelectsHistory history →
        ∃ item', getNotification t.store history item.notificationId = some item') ∧
      ∀ item', Shown Sample.env t t item' → item'.notificationId = item.notificationId →
        item.history.Subperm item'.history ∧
          item.history.map (·.createdAt) <+: item'.history.map (·.createdAt) ∧
          ((item'.history.map (·.createdAt)).Nodup → item.history <+: item'.history) ∧
          item.attempts ≤ item'.attempts ∧
          item'.batchId = item.batchId ∧ item'.subscriberId = item.subscriberId ∧
          item'.channel = item.channel ∧ item'.type = item.type ∧
          item'.message = item.message ∧ item'.createdAt = item.createdAt := by
  obtain ⟨s, t, item, hs, hitem, hstatus, hhistory, hnd⟩ := Sample.torn_read
  exact ⟨t, item, hstatus, hhistory, hnd, reads_monotonic hs hitem .nil .nil⟩

end NotificationSystem
