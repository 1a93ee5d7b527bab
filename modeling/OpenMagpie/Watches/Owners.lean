import OpenMagpie.Lib.Projection
import OpenMagpie.Watches.Edit
import OpenMagpie.Watches.Flush
import OpenMagpie.Watches.Trigger

/-!
# An account's rows

Every row belongs to an account. What the store's operations do to the rows of one account: those on
its behalf do there what they do in the whole store, the others do nothing there.

* `Owner`, `Owner.Names`: the account of each id; rows name ids of their own account.
* `World.of`: the rows of an account.
* `digestBatch_filter`, `nextInChain_filter`, `hasItem_filter`: reads on an account's behalf.
* `settle_filter`, `openWindow_filter`, `enqueueChunk_filter`; `settle_of_ne`, `openWindow_of_ne`,
  `enqueueChunk_of_ne`: writes on its behalf, and on another account's.
* `enqueueNextBatch_of`, `apply_of`: an advance, and an edit's transaction.
-/

set_option autoImplicit false

namespace OpenMagpie

/-- The account of each id. -/
structure Owner where
  run : Id → Id
  action : Id → Id
  watchFeed : Id → Id
  path : Id → Id

/-- The rows of a table name ids of their own account. -/
structure Owner.Names (o : Owner) (w : World) : Prop where
  runs : ∀ r ∈ w.runs, o.run r.id = r.accountId
  actions : ∀ x ∈ w.actions, o.action x.id = x.accountId
  watchFeeds : ∀ f ∈ w.watchFeeds, o.watchFeed f.id = f.accountId

/-! ## An account's rows -/

/-- The account of a log entry. -/
def Event.account (o : Owner) : Event → Id
  | .claimed run _ _ _ => o.run run
  | .completed run _ => o.run run
  | .bounded account _ _ => account
  | .scanned watchFeed _ => o.watchFeed watchFeed

/-- The rows of an account. -/
def World.of (o : Owner) (a : Id) (w : World) : World where
  clock := w.clock
  runs := w.runs.filter fun r => decide (r.accountId = a)
  windows := w.windows.filter fun v => decide (v.accountId = a)
  actions := w.actions.filter fun x => decide (x.accountId = a)
  items := w.items.filter fun i => decide (i.accountId = a)
  feeds := w.feeds.filter fun f => decide (f.accountId = a)
  watches := w.watches.filter fun x => decide (x.accountId = a)
  watchFeeds := w.watchFeeds.filter fun f => decide (f.accountId = a)
  locked := w.locked.filter fun k => decide (k.1 = a)
  chainLocked := w.chainLocked.filter fun path => decide (o.path path = a)
  log := w.log.filter fun e => decide (e.account o = a)

/-! ## Reads -/

section Reads

variable {a : Id}

/-- What a filter under the account's filter selects. -/
theorem filter_account {α : Type} {account : α → Id} {p : α → Bool} {l : List α}
    (hp : ∀ x, p x = true → account x = a) :
    (l.filter fun x => decide (account x = a)).filter p = l.filter p := by
  rw [List.filter_filter]
  refine List.filter_congr fun x _ => ?_
  cases h : p x with
  | false => simp
  | true => simp [hp x h]

theorem getAction_filter {id : Id} {actions : List WatchAction} :
    getAction a id (actions.filter fun x => decide (x.accountId = a)) = getAction a id actions := by
  rw [getAction, List.find?_filter]
  refine congrArg (List.find? · actions) (funext fun x => ?_)
  by_cases hx : x.accountId = a <;> simp [hx]

theorem nextInChain_filter {action : WatchAction} {actions : List WatchAction} :
    nextInChain a action (actions.filter fun x => decide (x.accountId = a)) =
      nextInChain a action actions := by
  rw [nextInChain, above, filter_account (by simp +contextual)]
  rfl

theorem listForPath_filter {path : Id} {actions : List WatchAction} :
    listForPath a path (actions.filter fun x => decide (x.accountId = a)) =
      listForPath a path actions := by
  rw [listForPath, filter_account (by simp +contextual)]
  rfl

theorem digestBatch_filter {S : Settings} {action : Id} {runs : List WatchActionRun} :
    digestBatch S a action (runs.filter fun r => decide (r.accountId = a)) =
      digestBatch S a action runs := by
  rw [digestBatch, pendingOf, filter_account fun r hr => (of_decide_eq_true hr).1]
  rfl

theorem feedItemIds_filter {feed : Id} {items : List FeedItem} :
    feedItemIds a feed (items.filter fun i => decide (i.accountId = a)) = feedItemIds a feed items := by
  rw [feedItemIds, filter_account (by simp +contextual)]
  rfl

theorem watchFeedsOf_filter {watch : Watch} {watchFeeds : List WatchFeed} (h : watch.accountId = a) :
    watchFeedsOf watch (watchFeeds.filter fun f => decide (f.accountId = a)) =
      watchFeedsOf watch watchFeeds := by
  rw [watchFeedsOf, filter_account (by simp +contextual [h])]
  rfl

theorem hasItem_filter {items : List FeedItem} {r : WatchActionRun} (h : r.accountId = a) :
    HasItem (items.filter fun i => decide (i.accountId = a)) r ↔ HasItem items r := by
  unfold HasItem
  simp only [List.mem_filter, decide_eq_true_eq]
  constructor
  · rintro ⟨i, ⟨hi, -⟩, hid, hacc⟩
    exact ⟨i, hi, hid, hacc⟩
  · rintro ⟨i, hi, hid, hacc⟩
    exact ⟨i, ⟨hi, hacc.trans h⟩, hid, hacc⟩

theorem hasWindow_filter {action : Id} {windows : List WatchActionDigestWindow} :
    hasWindow (windows.filter fun v => decide (v.accountId = a)) a action ↔
      hasWindow windows a action := by
  unfold hasWindow
  simp only [List.mem_map, List.mem_filter, decide_eq_true_eq]
  constructor
  · rintro ⟨v, ⟨hv, -⟩, hk⟩
    exact ⟨v, hv, hk⟩
  · rintro ⟨v, hv, hk⟩
    exact ⟨v, ⟨hv, congrArg Prod.fst hk⟩, hk⟩

theorem isDrained_filter {action : Id} {runs : List WatchActionRun} :
    IsDrained a action (runs.filter fun r => decide (r.accountId = a)) ↔ IsDrained a action runs := by
  unfold IsDrained
  simp only [List.mem_filter, decide_eq_true_eq]
  exact ⟨fun h r hr hp => h r ⟨hr, hp.1⟩ hp, fun h r hr => h r hr.1⟩

/-- The selected entries after an entry has been taken out. -/
theorem erase_filter {α : Type} [BEq α] [LawfulBEq α] {q : α → Bool} {x : α} {l : List α} (hx : q x = true) :
    (l.erase x).filter q = (l.filter q).erase x := by
  induction l with
  | nil => rfl
  | cons y l ih =>
    by_cases hy : y = x
    · subst hy
      rw [List.erase_cons_head, List.filter_cons_of_pos hx, List.erase_cons_head]
    · rw [List.erase_cons_tail (by simpa using hy), List.filter_cons, List.filter_cons]
      split
      · rw [List.erase_cons_tail (by simpa using hy), ih]
      · exact ih

theorem erase_filter_of_not {α : Type} [BEq α] [LawfulBEq α] {q : α → Bool} {x : α} {l : List α}
    (hx : q x = false) : (l.erase x).filter q = l.filter q := by
  induction l with
  | nil => rfl
  | cons y l ih =>
    by_cases hy : y = x
    · subst hy
      rw [List.erase_cons_head, List.filter_cons_of_neg (by simp [hx])]
    · rw [List.erase_cons_tail (by simpa using hy), List.filter_cons, List.filter_cons, ih]

theorem minted_filter {mint : Id → Id} {runs : List WatchActionRun} (h : Minted runs mint)
    (p : WatchActionRun → Bool) : Minted (runs.filter p) mint :=
  ⟨h.injective, fun i r hr => h.fresh i r (List.mem_of_mem_filter hr)⟩

end Reads

/-! ## Writes -/

section Writes

variable {a b : Id} {runs : List WatchActionRun} {windows : List WatchActionDigestWindow}

/-- A key names its account. -/
theorem account_of_runKey (r r' : WatchActionRun) (h : r.key = r'.key) :
    decide (r.accountId = a) = decide (r'.accountId = a) :=
  congrArg (fun k : RunKey => decide (k.1 = a)) h

theorem account_of_windowKey (v v' : WatchActionDigestWindow) (h : v.key = v'.key) :
    decide (v.accountId = a) = decide (v'.accountId = a) :=
  congrArg (fun k : WindowKey => decide (k.1 = a)) h

theorem completeBatch_filter {account : Id} {ids : List Id} {res : ActionResult} {d : Option Id}
    {k : Option String} {now : Time} :
    (completeBatch account ids res d k now runs).filter (fun r => decide (r.accountId = a)) =
      completeBatch account ids res d k now (runs.filter fun r => decide (r.accountId = a)) := by
  rw [completeBatch_eq_update, completeBatch_eq_update]
  exact Table.filter_update fun _ => rfl

theorem completeBatch_of_ne (hb : b ≠ a) {ids : List Id} {res : ActionResult} {d : Option Id}
    {k : Option String} {now : Time} :
    (completeBatch b ids res d k now runs).filter (fun r => decide (r.accountId = a)) =
      runs.filter fun r => decide (r.accountId = a) := by
  rw [completeBatch_eq_update]
  refine Table.filter_update_of_not (fun _ => rfl) fun r _ hr => ?_
  rw [Bool.eq_false_iff, ne_eq, batchGuard_iff]
  rintro ⟨-, hacc, -⟩
  exact hb (hacc.symm.trans (of_decide_eq_true hr))

theorem failChunk_filter {S : Settings} {account : Id} {now : Time} {chunk : List Id} :
    (failChunk S account now runs chunk).filter (fun r => decide (r.accountId = a)) =
      failChunk S account now (runs.filter fun r => decide (r.accountId = a)) chunk := by
  have hburn : (Table.update (batchGuard account chunk) burnedRow runs).filter
      (fun r => decide (r.accountId = a)) =
      Table.update (batchGuard account chunk) burnedRow (runs.filter fun r => decide (r.accountId = a)) :=
    Table.filter_update fun _ => rfl
  rw [failChunk, failChunk, ← hburn]
  exact Table.filter_update fun _ => rfl

theorem failChunk_of_ne {S : Settings} (hb : b ≠ a) {now : Time} {chunk : List Id} :
    (failChunk S b now runs chunk).filter (fun r => decide (r.accountId = a)) =
      runs.filter fun r => decide (r.accountId = a) := by
  have hguard (r : WatchActionRun) (hr : decide (r.accountId = a) = true) :
      batchGuard b chunk r = false := by
    rw [Bool.eq_false_iff, ne_eq, batchGuard_iff]
    rintro ⟨-, hacc, -⟩
    exact hb (hacc.symm.trans (of_decide_eq_true hr))
  have hburn : (Table.update (batchGuard b chunk) burnedRow runs).filter
      (fun r => decide (r.accountId = a)) = runs.filter fun r => decide (r.accountId = a) :=
    Table.filter_update_of_not (fun _ => rfl) fun r _ hr => hguard r hr
  rw [failChunk, ← hburn]
  refine Table.filter_update_of_not (fun _ => rfl) fun r _ hr => ?_
  rw [hguard r hr, Bool.false_and]

theorem failBatch_filter {S : Settings} {account : Id} {ids : List Id} {now : Time} :
    (failBatch S account ids now runs).filter (fun r => decide (r.accountId = a)) =
      failBatch S account ids now (runs.filter fun r => decide (r.accountId = a)) := by
  unfold failBatch
  generalize Batched.batched idInChunk ids = chunks
  induction chunks generalizing runs with
  | nil => rfl
  | cons chunk chunks ih => rw [List.foldl_cons, List.foldl_cons, ih, failChunk_filter]

theorem failBatch_of_ne {S : Settings} (hb : b ≠ a) {ids : List Id} {now : Time} :
    (failBatch S b ids now runs).filter (fun r => decide (r.accountId = a)) =
      runs.filter fun r => decide (r.accountId = a) := by
  unfold failBatch
  generalize Batched.batched idInChunk ids = chunks
  induction chunks generalizing runs with
  | nil => rfl
  | cons chunk chunks ih => rw [List.foldl_cons, ih, failChunk_of_ne hb]

theorem settle_filter {S : Settings} {s : Slice} {x : Settle} :
    (s.settle S runs x).filter (fun r => decide (r.accountId = a)) =
      s.settle S (runs.filter fun r => decide (r.accountId = a)) x := by
  cases x with
  | close => rfl
  | complete action res d => exact completeBatch_filter
  | fail => exact failBatch_filter

theorem settle_of_ne {S : Settings} {s : Slice} {x : Settle} (hs : s.window.accountId ≠ a) :
    (s.settle S runs x).filter (fun r => decide (r.accountId = a)) =
      runs.filter fun r => decide (r.accountId = a) := by
  cases x with
  | close => rfl
  | complete action res d => exact completeBatch_of_ne hs
  | fail => exact failBatch_of_ne hs

theorem openWindow_filter (a : Id) (windows : List WatchActionDigestWindow) (action : Id) (n : ℕ)
    (now : Time) : openWindow a action n now (windows.filter fun v => decide (v.accountId = a)) =
      ((openWindow a action n now windows).1.filter (fun v => decide (v.accountId = a)),
        (openWindow a action n now windows).2) := by
  have hins : (Table.insertIgnore WatchActionDigestWindow.key windows ⟨a, action, none⟩).filter
      (fun v => decide (v.accountId = a)) =
      Table.insertIgnore WatchActionDigestWindow.key (windows.filter fun v => decide (v.accountId = a))
        ⟨a, action, none⟩ :=
    Table.filter_insertIgnore account_of_windowKey (decide_eq_true rfl)
  have hupd (l : List WatchActionDigestWindow) :
      (Table.update (fun w => decide (w.key = (a, action) ∧ w.closeAt = none))
        (fun w => { w with closeAt := some (now + n) }) l).filter (fun v => decide (v.accountId = a)) =
      Table.update (fun w => decide (w.key = (a, action) ∧ w.closeAt = none))
        (fun w => { w with closeAt := some (now + n) }) (l.filter fun v => decide (v.accountId = a)) :=
    Table.filter_update fun _ => rfl
  have hfind (l : List WatchActionDigestWindow) :
      (l.filter fun v => decide (v.accountId = a)).find? (fun v => decide (v.key = (a, action))) =
        l.find? fun v => decide (v.key = (a, action)) := by
    rw [List.find?_filter]
    refine congrArg (List.find? · l) (funext fun v => ?_)
    by_cases hv : v.key = (a, action)
    · simp [hv, show v.accountId = a from congrArg Prod.fst hv]
    · simp [hv]
  unfold openWindow
  dsimp only
  rw [← hins, ← hupd, hfind]

theorem openWindow_of_ne (hb : b ≠ a) (windows : List WatchActionDigestWindow) (action : Id) (n : ℕ)
    (now : Time) : (openWindow b action n now windows).1.filter (fun v => decide (v.accountId = a)) =
      windows.filter fun v => decide (v.accountId = a) := by
  have hins : (Table.insertIgnore WatchActionDigestWindow.key windows ⟨b, action, none⟩).filter
      (fun v => decide (v.accountId = a)) = windows.filter fun v => decide (v.accountId = a) :=
    Table.filter_insertIgnore_of_not (decide_eq_false hb)
  rw [← hins]
  refine Table.filter_update_of_not (fun _ => rfl) fun v _ hv => ?_
  rw [decide_eq_false_iff_not]
  rintro ⟨hk, -⟩
  exact hb ((congrArg Prod.fst hk).symm.trans (of_decide_eq_true hv))

theorem closeWindow_filter {account action : Id} :
    (closeWindow account action windows).filter (fun v => decide (v.accountId = a)) =
      closeWindow account action (windows.filter fun v => decide (v.accountId = a)) :=
  Table.filter_update fun _ => rfl

theorem closeWindow_of_ne (hb : b ≠ a) {action : Id} :
    (closeWindow b action windows).filter (fun v => decide (v.accountId = a)) =
      windows.filter fun v => decide (v.accountId = a) := by
  refine Table.filter_update_of_not (fun _ => rfl) fun v _ hv => ?_
  rw [decide_eq_false_iff_not]
  exact fun hk => hb ((congrArg Prod.fst hk).symm.trans (of_decide_eq_true hv))

theorem enqueueAdvanceBatch_filter {mint : Id → Id} {action : Id} {kind : String} {t : Time}
    {rows : List (Id × Id × Id)} :
    (enqueueAdvanceBatch mint a action kind t rows runs).filter (fun r => decide (r.accountId = a)) =
      enqueueAdvanceBatch mint a action kind t rows (runs.filter fun r => decide (r.accountId = a)) := by
  refine Table.filter_bulkInsert account_of_runKey fun r hr => ?_
  obtain ⟨row, -, rfl⟩ := List.mem_map.mp hr
  exact decide_eq_true rfl

theorem enqueueAdvanceBatch_of_ne (hb : b ≠ a) {mint : Id → Id} {action : Id} {kind : String}
    {t : Time} {rows : List (Id × Id × Id)} :
    (enqueueAdvanceBatch mint b action kind t rows runs).filter (fun r => decide (r.accountId = a)) =
      runs.filter fun r => decide (r.accountId = a) := by
  refine Table.filter_bulkInsert_of_not fun r hr => ?_
  obtain ⟨row, -, rfl⟩ := List.mem_map.mp hr
  exact decide_eq_false hb

theorem enqueueChunk_filter {mint : Id → Id} {watch action : Id} {kind : String} {t : Time}
    {chunk : List Id} {runs' : List WatchActionRun} {n : ℕ}
    (h : enqueueChunk mint a watch action kind t chunk runs = .ok (runs', n)) :
    enqueueChunk mint a watch action kind t chunk (runs.filter fun r => decide (r.accountId = a)) =
      .ok (runs'.filter fun r => decide (r.accountId = a), n) := by
  unfold enqueueChunk at h ⊢
  split at h
  · cases h
  · next hlen =>
    rw [if_neg hlen]
    obtain ⟨rfl, rfl⟩ := Prod.mk.inj (Except.ok.inj h)
    dsimp only
    rw [filter_account (by simp +contextual), Table.filter_bulkInsert account_of_runKey]
    intro r hr
    obtain ⟨item, -, rfl⟩ := List.mem_map.mp hr
    exact decide_eq_true rfl

theorem enqueueChunk_of_ne (hb : b ≠ a) {mint : Id → Id} {watch action : Id} {kind : String}
    {t : Time} {chunk : List Id} {runs' : List WatchActionRun} {n : ℕ}
    (h : enqueueChunk mint b watch action kind t chunk runs = .ok (runs', n)) :
    runs'.filter (fun r => decide (r.accountId = a)) = runs.filter fun r => decide (r.accountId = a) := by
  unfold enqueueChunk at h
  split at h
  · cases h
  · obtain ⟨rfl, -⟩ := Prod.mk.inj (Except.ok.inj h)
    refine Table.filter_bulkInsert_of_not fun r hr => ?_
    obtain ⟨item, -, rfl⟩ := List.mem_map.mp hr
    exact decide_eq_false hb

end Writes

/-! ## The advance -/

section Advance

variable {C : Type} {R : Registry C} {o : Owner} {a b : Id} {mint : Id → Id}
  {batch : List WatchActionRun} {succ : Option WatchAction} {now : Time} {w w' : World}

/-- The three results of an advance. -/
theorem enqueueNextBatch_cases (h : enqueueNextBatch R mint b batch succ now w = .ok w') :
    (w' = w ∧ (batch = [] ∨ succ = none)) ∨
    ∃ nxt, batch ≠ [] ∧ succ = some nxt ∧
      ((digestInterval R nxt = .ok none ∧ w' = { w with
          runs := enqueueAdvanceBatch mint b nxt.id nxt.kind now (advanceRows batch) w.runs }) ∨
        ∃ n windows t, digestInterval R nxt = .ok (some n) ∧
          openWindow b nxt.id n now w.windows = (windows, t) ∧ w' = { w with
            windows := windows
            runs := enqueueAdvanceBatch mint b nxt.id nxt.kind t (advanceRows batch) w.runs }) := by
  unfold enqueueNextBatch at h
  split at h
  · exact .inl ⟨(Except.ok.inj h).symm, .inl rfl⟩
  · exact .inl ⟨(Except.ok.inj h).symm, .inr rfl⟩
  · next nxt hbatch =>
    refine .inr ⟨nxt, hbatch, rfl, ?_⟩
    split at h
    · cases h
    · next n hd =>
      cases hw : openWindow b nxt.id n now w.windows with
      | mk windows t =>
        rw [hw] at h
        exact .inr ⟨n, windows, t, hd, hw, (Except.ok.inj h).symm⟩
    · next hd => exact .inl ⟨hd, (Except.ok.inj h).symm⟩

theorem enqueueNextBatch_of (h : enqueueNextBatch R mint a batch succ now w = .ok w') :
    enqueueNextBatch R mint a batch succ now (w.of o a) = .ok (w'.of o a) := by
  rcases enqueueNextBatch_cases h with ⟨rfl, hnone⟩ | ⟨nxt, hbatch, rfl, hwrite⟩
  · cases batch with
    | nil => rfl
    | cons r batch =>
      cases succ with
      | none => rfl
      | some nxt => simp at hnone
  · cases batch with
    | nil => exact absurd rfl hbatch
    | cons r batch =>
      rcases hwrite with ⟨hd, rfl⟩ | ⟨n, windows, t, hd, hopen, rfl⟩
      · simp only [enqueueNextBatch, hd, World.of, enqueueAdvanceBatch_filter]
      · have hfilter := openWindow_filter a w.windows nxt.id n now
        rw [hopen] at hfilter
        simp only [enqueueNextBatch, hd, World.of, hfilter, enqueueAdvanceBatch_filter]

theorem enqueueNextBatch_of_ne (hb : b ≠ a) (h : enqueueNextBatch R mint b batch succ now w = .ok w') :
    w'.of o a = w.of o a := by
  rcases enqueueNextBatch_cases h with
    ⟨rfl, -⟩ | ⟨nxt, -, -, ⟨-, rfl⟩ | ⟨n, windows, t, -, hopen, rfl⟩⟩
  · rfl
  · simp only [World.of, enqueueAdvanceBatch_of_ne hb]
  · have hfilter := openWindow_of_ne hb w.windows nxt.id n now
    rw [hopen] at hfilter
    simp only [World.of, hfilter, enqueueAdvanceBatch_of_ne hb]

theorem not_blocked_of (h : ¬ Blocked R w a succ) : ¬ Blocked R (w.of o a) a succ := by
  rintro ⟨nxt, hn, hd, hl⟩
  exact h ⟨nxt, hn, hd, List.mem_of_mem_filter hl⟩

end Advance

/-! ## An edit's transaction -/

section Edits

variable {o : Owner} {a : Id} {x : ChainWrite} {w : World}

theorem map_filter_account {f : WatchAction → WatchAction} (hf : ∀ y, (f y).accountId = y.accountId)
    (actions : List WatchAction) : (actions.map f).filter (fun y => decide (y.accountId = a)) =
      (actions.filter fun y => decide (y.accountId = a)).map f := by
  rw [List.filter_map]
  simp [Function.comp_def, hf]

theorem actions_filter (actions : List WatchAction) (hx : x.account = a) (hc : ∀ y ∈ x.created, y.accountId = x.account) :
    (x.actions actions).filter (fun y => decide (y.accountId = a)) =
      x.actions (actions.filter fun y => decide (y.accountId = a)) := by
  have hcreated : x.created.filter (fun y => decide (y.accountId = a)) = x.created :=
    List.filter_eq_self.mpr fun y hy => decide_eq_true ((hc y hy).trans hx)
  unfold ChainWrite.actions
  rw [map_filter_account x.rankRow_accountId, List.filter_append, hcreated,
    map_filter_account x.updateRow_accountId, List.filter_comm]

theorem actions_filter_of_ne (actions : List WatchAction) (hx : x.account ≠ a) (hc : ∀ y ∈ x.created, y.accountId = x.account) :
    (x.actions actions).filter (fun y => decide (y.accountId = a)) =
      actions.filter fun y => decide (y.accountId = a) := by
  have hcreated : x.created.filter (fun y => decide (y.accountId = a)) = [] :=
    List.filter_eq_nil_iff.mpr fun y hy h => hx ((hc y hy).symm.trans (of_decide_eq_true h))
  have hother {y : WatchAction} (hy : y ∈ actions.filter fun y => decide (y.accountId = a)) :
      y.accountId ≠ x.account :=
    fun h => hx (h.symm.trans (of_decide_eq_true (List.mem_filter.mp hy).2))
  have hkeeps : (actions.filter fun y => decide (y.accountId = a)).filter (fun y => decide (x.Keeps y)) =
      actions.filter fun y => decide (y.accountId = a) :=
    List.filter_eq_self.mpr fun y hy => decide_eq_true fun h => hother hy h.1
  unfold ChainWrite.actions
  rw [map_filter_account x.rankRow_accountId, List.filter_append, hcreated, List.append_nil,
    map_filter_account x.updateRow_accountId, List.filter_comm, hkeeps, List.map_map]
  refine (List.map_congr_left fun y hy => ?_).trans (List.map_id _)
  show x.rankRow (x.updateRow y) = y
  have hrow : x.updateRow y = y := if_neg (hother hy)
  rw [hrow]
  exact if_neg (hother hy)

theorem apply_of (hx : x.account = a) (hl : x.Lands w) : (x.apply w).of o a = x.apply (w.of o a) := by
  have hactions := actions_filter w.actions hx fun y hy => (hl.fresh y hy).1
  have hwindows : (x.windows w.windows).filter (fun v => decide (v.accountId = a)) =
      x.windows (w.windows.filter fun v => decide (v.accountId = a)) := List.filter_comm ..
  simp only [ChainWrite.apply, World.of, hactions, hwindows]

theorem apply_of_ne (hx : x.account ≠ a) (hl : x.Lands w) : (x.apply w).of o a = w.of o a := by
  have hactions := actions_filter_of_ne w.actions hx fun y hy => (hl.fresh y hy).1
  have hwindows : (x.windows w.windows).filter (fun v => decide (v.accountId = a)) =
      w.windows.filter fun v => decide (v.accountId = a) := by
    refine (List.filter_comm ..).trans (List.filter_eq_self.mpr fun v hv => ?_)
    have hacc : v.accountId = a := of_decide_eq_true (List.mem_filter.mp hv).2
    simp [hacc, Ne.symm hx]
  simp only [ChainWrite.apply, World.of, hactions, hwindows]

/-- An edit that can commit can commit in its account's part. -/
theorem ChainWrite.Lands.of (hl : x.Lands w) (hx : x.account = a) : x.Lands (w.of o a) where
  fresh y hy := ⟨(hl.fresh y hy).1, fun b hb => (hl.fresh y hy).2 b (List.mem_of_mem_filter hb)⟩
  created_nodup := hl.created_nodup
  ranks := by
    show ((x.actions (w.actions.filter fun y => decide (y.accountId = a))).map _).Nodup
    rw [← actions_filter _ hx fun y hy => (hl.fresh y hy).1]
    exact (List.filter_sublist.map _).nodup hl.ranks
  unlocked k hk := hl.unlocked k (List.mem_of_mem_filter hk)

end Edits

end OpenMagpie
