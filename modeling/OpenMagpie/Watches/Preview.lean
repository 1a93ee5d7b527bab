import Mathlib.Algebra.GroupWithZero.Nat
import OpenMagpie.Watches.BackfillPass

/-!
# The preview of a backfill

A backfill request either queues a job or, as a dry run, answers how large the job would be. The
preview counts rows; the job deletes down the chain and then streams its inserts.

* `prevInChain`, `countRunsForAction`: the reads of the preview.
* `BackfillActionView.preview`, `BackfillActionView.post`: the request.
* `Source.Apart`: the source set does not depend on the runs that the job writes.
* `length_deleteChain`: what the deletes remove, action by action.
* `enqueueMany_count`: what the inserts add.
* `BackfillCounts.Of`, `run_leaves`: a job's counts are those of the rows gone and the rows new.
* **`preview_agrees`**: the preview and the job that is run on the same tables agree.
-/

set_option autoImplicit false

namespace OpenMagpie

open Batched

/-! ## The reads -/

/-- The actions of a path below a rank. -/
def below (account path : Id) (rank : ℕ) (actions : List WatchAction) : List WatchAction :=
  actions.filter fun a => decide (a.accountId = account ∧ a.pathId = path ∧ a.rank < rank)

/-- `prev_in_chain`: the action with the largest rank below `action`'s. -/
def prevInChain (account : Id) (action : WatchAction) (actions : List WatchAction) :
    Option WatchAction :=
  (below account action.pathId action.rank actions).argmax (·.rank)

/-- A run of the action for one of the items. -/
def IsRunOf (account watch action : Id) (items : List Id) (r : WatchActionRun) : Prop :=
  r.accountId = account ∧ r.watchId = watch ∧ r.actionId = action ∧ r.feedItemId ∈ items

instance (account watch action : Id) (items : List Id) (r : WatchActionRun) :
    Decidable (IsRunOf account watch action items r) := by
  unfold IsRunOf; infer_instance

/-- `count_runs_for_action`. -/
def countRunsForAction (account watch action : Id) (items : List Id) (terminalOnly : Bool)
    (runs : List WatchActionRun) : ℕ :=
  runs.countP fun r => decide (IsRunOf account watch action items r ∧
    (terminalOnly = true → IsDeletableTerminal r))

/-! ## The request -/

/-- The answer to a dry run. -/
structure BackfillPreview where
  sourceActionId : Option Id
  sourceIsHead : Bool
  replace : Bool
  matched : ℕ
  present : ℕ
  pruned : ℤ
  wouldDelete : ℕ
  wouldEnqueue : ℤ
  deriving DecidableEq

/-- The answer to a request. -/
inductive BackfillResponse
  | notFound
  | refused (message : String)
  | failed (e : ResolveError)
  | previewed (p : BackfillPreview)
  | created (job : WatchActionBackfill)

namespace BackfillActionView

/-- `_preview`. -/
def preview (account : Id) (target : WatchAction) (source : Option Id) (head : Bool) (watch : Id)
    (windows : RunWindows) (replace : Bool) (w : World) : Except ResolveError BackfillPreview := do
  let present ← resolvePresent account source head watch windows w
  let items := present.source.ids account windows w.items w.runs
  let count (action : Id) (terminalOnly : Bool) : ℕ :=
    countRunsForAction account watch action items terminalOnly w.runs
  return {
    sourceActionId := source
    sourceIsHead := head
    replace := replace
    matched := present.matched
    present := present.presentCount
    pruned := (present.matched : ℤ) - present.presentCount
    wouldDelete :=
      if replace then ((chainFrom account w.actions target).map fun a => count a.id true).sum else 0
    wouldEnqueue :=
      if replace then
        (present.presentCount : ℤ) - count target.id false + count target.id true
      else (present.presentCount : ℤ) - count target.id false }

/-- `post`, from the windows it has read and the watch of the target's path. -/
def post (account action watch : Id) (windows : RunWindows) (replace dryRun : Bool) (newId : Id)
    (now : Time) (w : World) : BackfillResponse :=
  match getAction account action w.actions with
  | none => .notFound
  | some target =>
    if windows = {} then
      .refused "a time window is required; pass occurred_since/occurred_until or completed_since/completed_until"
    else
      let prev := prevInChain account target w.actions
      if prev.isNone ∧ (windows.completedSince.isSome ∨ windows.completedUntil.isSome) then
        .refused "a chain-head action has no upstream run; use occurred_since/occurred_until"
      else if dryRun then
        match preview account target (prev.map (·.id)) prev.isNone watch windows replace w with
        | .error e => .failed e
        | .ok p => .previewed p
      else
        .created (WatchActionBackfillService.create newId account watch target.id
          (prev.map (·.id)) prev.isNone replace windows now)

end BackfillActionView

/-! ## The chain below a target -/

section Chain

variable {account : Id} {actions : List WatchAction} {target a b : WatchAction}

theorem mem_of_prevInChain (h : a ∈ prevInChain account target actions) :
    a ∈ actions ∧ a.rank < target.rank := by
  have hm := List.argmax_mem h
  rw [below, List.mem_filter, decide_eq_true_iff] at hm
  exact ⟨hm.1, hm.2.2.2⟩

theorem chainFrom_of_next (h : nextInChain account target actions = some a) :
    chainFrom account actions target = target :: chainFrom account actions a := by
  rw [chainFrom]
  split
  · next hn => cases hn.symm.trans h
  · next n hn => rw [Option.some.inj (hn.symm.trans h)]

theorem chainFrom_of_tail (h : nextInChain account target actions = none) :
    chainFrom account actions target = [target] := by
  rw [chainFrom]
  split
  · rfl
  · next n hn => cases hn.symm.trans h

/-- A chain is its target and the chain of the successor. -/
theorem mem_chainFrom : b ∈ chainFrom account actions target ↔
    b = target ∨ ∃ n, nextInChain account target actions = some n ∧
      b ∈ chainFrom account actions n := by
  cases hn : nextInChain account target actions with
  | none => simp [chainFrom_of_tail hn]
  | some n => simp [chainFrom_of_next hn]

/-- The actions downstream are stored, with ranks above the target's. -/
theorem of_mem_chainFrom (h : b ∈ chainFrom account actions target) :
    b = target ∨ (b ∈ actions ∧ target.rank < b.rank) := by
  induction target using chainFrom.induct account actions with
  | case1 target ih =>
    rcases mem_chainFrom.mp h with rfl | ⟨n, hn, hb⟩
    · exact .inl rfl
    · obtain ⟨hm, hr⟩ := mem_of_nextInChain hn
      rcases ih n hn hb with rfl | ⟨hb, hlt⟩
      · exact .inr ⟨hm, hr⟩
      · exact .inr ⟨hb, hr.trans hlt⟩

/-- **No action twice.** The ids of a chain are distinct. -/
theorem nodup_chainFrom (account : Id) (ha : (actions.map (·.id)).Nodup) (ht : target ∈ actions) :
    ((chainFrom account actions target).map (·.id)).Nodup := by
  induction target using chainFrom.induct account actions with
  | case1 target ih =>
    cases hn : nextInChain account target actions with
    | none => simp [chainFrom_of_tail hn]
    | some n =>
      rw [chainFrom_of_next hn, List.map_cons, List.nodup_cons]
      obtain ⟨hm, hr⟩ := mem_of_nextInChain hn
      refine ⟨fun hmem => ?_, ih n hn hm⟩
      obtain ⟨b, hb, hid⟩ := List.mem_map.mp hmem
      have hlt : target.rank < b.rank := by
        rcases of_mem_chainFrom hb with rfl | ⟨-, hlt⟩
        · exact hr
        · exact hr.trans hlt
      have hbm : b ∈ actions := by
        rcases of_mem_chainFrom hb with rfl | ⟨hbm, -⟩
        · exact hm
        · exact hbm
      obtain rfl := Table.eq_of_key ha hbm ht hid
      exact absurd hlt (Nat.lt_irrefl _)

/-- The predecessor is not downstream. -/
theorem prev_not_mem_chainFrom (ha : (actions.map (·.id)).Nodup) (ht : target ∈ actions)
    (hp : prevInChain account target actions = some a) (hb : b ∈ chainFrom account actions target) :
    b.id ≠ a.id := by
  obtain ⟨hm, hr⟩ := mem_of_prevInChain hp
  intro hid
  rcases of_mem_chainFrom hb with rfl | ⟨hbm, hlt⟩
  · obtain rfl := Table.eq_of_key ha ht hm hid
    omega
  · obtain rfl := Table.eq_of_key ha hbm hm hid
    omega

end Chain

/-! ## The deletes -/

section Delete

variable {account watch action b : Id} {windows : RunWindows} {items : List FeedItem}
  {ids : List Id} {runs runs' : List WatchActionRun} {source : Source}
  {job : WatchActionBackfill} {chain : List WatchAction} {r : WatchActionRun}

/-- The source set is not read from the runs of these actions. -/
def Source.Apart (actions : List Id) : Source → Prop
  | .head _ => True
  | .predecessor a => ∀ i ∈ actions, some i ≠ a

/-- The source set depends on the source action's runs only. -/
theorem Source.ids_congr {actions : List Id} (hs : source.Apart actions)
    (h : ∀ r, r.actionId ∉ actions → (r ∈ runs ↔ r ∈ runs')) :
    source.ids account windows items runs = source.ids account windows items runs' := by
  rw [Source.ids, Source.ids]
  cases source with
  | head feedIds => rfl
  | predecessor a =>
    have hp : (Source.predecessor a).present account windows items runs =
        (Source.predecessor a).present account windows items runs' := by
      refine List.filter_congr fun x hx => ?_
      rw [decide_eq_decide]
      refine and_congr_right fun _ => ?_
      simp only [succeededInWindow, List.mem_map, List.mem_filter, decide_eq_true_eq]
      refine exists_congr fun r => and_congr_left fun _ => and_congr_left fun hr => h r fun hm => ?_
      exact hs _ hm hr.2.1
    rw [hp]

/-- **The lazy source set.** A delete of other actions' runs leaves it. -/
theorem Source.ids_delete (hs : source.Apart [action]) :
    source.ids account windows items (deleteTerminalForAction account watch action ids runs) =
      source.ids account windows items runs := by
  refine Source.ids_congr hs fun r hr => ?_
  rw [mem_deleteTerminalForAction]
  exact and_iff_left fun h => hr (List.mem_singleton.mpr h.2.2.2.1)

theorem Source.Apart.mono {l l' : List Id} (h : source.Apart l) (hl : l' ⊆ l) : source.Apart l' := by
  cases source with
  | head _ => trivial
  | predecessor a => exact fun i hi => h i (hl hi)

variable (account watch action ids runs) in
/-- A delete of action `action` removes its terminal runs, and no other action's. -/
theorem count_deleteTerminalForAction (b : Id) (terminalOnly : Bool) :
    countRunsForAction account watch b ids terminalOnly
        (deleteTerminalForAction account watch action ids runs) +
      (if b = action then countRunsForAction account watch action ids true runs else 0) =
      countRunsForAction account watch b ids terminalOnly runs := by
  simp only [countRunsForAction, deleteTerminalForAction, List.countP_filter]
  induction runs with
  | nil => simp
  | cons r runs ih =>
    simp only [List.countP_cons, IsRunOf] at ih ⊢
    grind

variable (account watch action ids runs) in
/-- What a delete removes. -/
theorem length_deleteTerminalForAction :
    (deleteTerminalForAction account watch action ids runs).length +
      countRunsForAction account watch action ids true runs = runs.length := by
  have hcount : countRunsForAction account watch action ids true runs =
      (runs.filter fun r => decide (IsDeletableTerminal r ∧ r.accountId = account ∧
        r.watchId = watch ∧ r.actionId = action ∧ r.feedItemId ∈ ids)).length := by
    rw [countRunsForAction, List.countP_eq_length_filter]
    congr 1
    refine List.filter_congr fun r _ => ?_
    rw [decide_eq_decide]
    exact ⟨fun ⟨hr, hd⟩ => ⟨hd rfl, hr⟩, fun ⟨hd, hr⟩ => ⟨hr, fun _ => hd⟩⟩
  rw [hcount, deleteTerminalForAction, Nat.add_comm]
  exact (List.length_eq_length_filter_add _).symm

namespace WatchBackfillOperation

/-- The source set after the walk. -/
theorem ids_deleteChain (hs : source.Apart (chain.map (·.id))) :
    source.ids job.accountId job.toRunWindows items (deleteChain job source items chain runs) =
      source.ids job.accountId job.toRunWindows items runs := by
  induction chain generalizing runs with
  | nil => rfl
  | cons a chain ih =>
    rw [List.map_cons] at hs
    refine (ih (hs.mono (List.subset_cons_self _ _))).trans (Source.ids_delete (hs.mono ?_))
    exact List.cons_subset_cons _ (List.nil_subset _)

variable (items runs job) in
/-- **What the walk removes**: of every action the runs that the preview counts. -/
theorem length_deleteChain (hs : source.Apart (chain.map (·.id)))
    (hn : (chain.map (·.id)).Nodup) :
    (deleteChain job source items chain runs).length +
      (chain.map fun a => countRunsForAction job.accountId job.watchId a.id
        (source.ids job.accountId job.toRunWindows items runs) true runs).sum = runs.length := by
  induction chain generalizing runs with
  | nil => rfl
  | cons a chain ih =>
    rw [List.map_cons, List.nodup_cons] at hn
    rw [List.map_cons] at hs
    have ha : source.Apart [a.id] := hs.mono (List.cons_subset_cons _ (List.nil_subset _))
    have hdel := length_deleteTerminalForAction job.accountId job.watchId a.id
      (source.ids job.accountId job.toRunWindows items runs) runs
    have hrest := @ih (deleteTerminalForAction job.accountId job.watchId a.id
      (source.ids job.accountId job.toRunWindows items runs) runs)
      (hs.mono (List.subset_cons_self _ _)) hn.2
    rw [Source.ids_delete ha] at hrest
    -- the first delete leaves the counts of the actions below
    have hsame : (chain.map fun b => countRunsForAction job.accountId job.watchId b.id
        (source.ids job.accountId job.toRunWindows items runs) true
        (deleteTerminalForAction job.accountId job.watchId a.id
          (source.ids job.accountId job.toRunWindows items runs) runs)) =
        chain.map fun b => countRunsForAction job.accountId job.watchId b.id
          (source.ids job.accountId job.toRunWindows items runs) true runs := by
      refine List.map_congr_left fun b hb => ?_
      have hne : b.id ≠ a.id := fun h => hn.1 (h ▸ List.mem_map_of_mem hb)
      simpa [hne] using count_deleteTerminalForAction job.accountId job.watchId a.id
        (source.ids job.accountId job.toRunWindows items runs) runs b.id true
    rw [hsame] at hrest
    rw [List.map_cons, List.sum_cons]
    have hstep : deleteChain job source items (a :: chain) runs = deleteChain job source items chain
      (deleteTerminalForAction job.accountId job.watchId a.id
        (source.ids job.accountId job.toRunWindows items runs) runs) := rfl
    rw [hstep]
    omega

variable (items runs job) in
/-- **The target's runs after the walk**: those the preview does not count as terminal. -/
theorem count_deleteChain (target : Id) (hs : source.Apart (chain.map (·.id)))
    (hn : (chain.map (·.id)).Nodup) :
    countRunsForAction job.accountId job.watchId target
        (source.ids job.accountId job.toRunWindows items runs) false
        (deleteChain job source items chain runs) +
      (if target ∈ chain.map (·.id) then countRunsForAction job.accountId job.watchId target
        (source.ids job.accountId job.toRunWindows items runs) true runs else 0) =
      countRunsForAction job.accountId job.watchId target
        (source.ids job.accountId job.toRunWindows items runs) false runs := by
  induction chain generalizing runs with
  | nil => rfl
  | cons a chain ih =>
    rw [List.map_cons, List.nodup_cons] at hn
    rw [List.map_cons] at hs
    have ha : source.Apart [a.id] := hs.mono (List.cons_subset_cons _ (List.nil_subset _))
    have hrest := @ih (deleteTerminalForAction job.accountId job.watchId a.id
      (source.ids job.accountId job.toRunWindows items runs) runs)
      (hs.mono (List.subset_cons_self _ _)) hn.2
    rw [Source.ids_delete ha] at hrest
    have hall := count_deleteTerminalForAction job.accountId job.watchId a.id
      (source.ids job.accountId job.toRunWindows items runs) runs target
    have hfalse := hall false
    have htrue := hall true
    have hstep : deleteChain job source items (a :: chain) runs = deleteChain job source items chain
      (deleteTerminalForAction job.accountId job.watchId a.id
        (source.ids job.accountId job.toRunWindows items runs) runs) := rfl
    simp only [hstep, List.map_cons, List.mem_cons]
    by_cases hta : target = a.id
    · subst hta
      rw [if_neg hn.1] at hrest
      rw [if_pos rfl] at hfalse
      simp only [true_or, if_true]
      omega
    · rw [if_neg hta] at hfalse htrue
      simp only [hta, false_or]
      split_ifs at hrest ⊢ <;> omega

end WatchBackfillOperation

end Delete

/-! ## The inserts -/

section Insert

variable {mint : Id → Id} {account watch action : Id} {kind : String} {t : Time}
  {runs runs' : List WatchActionRun} {n : ℕ}

/-- The items without a run of the action. -/
def fresh (account watch action : Id) (items : List Id) (runs : List WatchActionRun) : List Id :=
  items.filter fun i => decide ((account, watch, action, i) ∉ runs.map WatchActionRun.key)

theorem enqueueChunk_count {chunk : List Id}
    (h : enqueueChunk mint account watch action kind t chunk runs = .ok (runs', n)) :
    n = (fresh account watch action chunk runs).length := by
  unfold enqueueChunk at h
  split_ifs at h
  obtain ⟨-, rfl⟩ := Prod.mk.inj (Except.ok.inj h)
  rw [List.length_map, fresh]
  congr 1
  refine List.filter_congr fun i hi => ?_
  rw [decide_eq_decide, not_iff_not]
  simp only [List.mem_map, List.mem_filter, decide_eq_true_eq, WatchActionRun.key, Prod.mk.injEq]
  constructor
  · rintro ⟨r, ⟨hr, ha, hw, hb, -⟩, rfl⟩
    exact ⟨r, hr, ha, hw, hb, rfl⟩
  · rintro ⟨r, hr, ha, hw, hb, rfl⟩
    exact ⟨r, ⟨hr, ha, hw, hb, hi⟩, rfl⟩

/-- An insert for other items leaves these items' runs. -/
theorem fresh_inserted {items items' : List Id} (hd : items.Disjoint items')
    (h : Table.Inserted WatchActionRun.key (enqueueRows mint account watch action kind t items)
      runs runs') :
    fresh account watch action items' runs' = fresh account watch action items' runs := by
  refine List.filter_congr fun i hi => ?_
  rw [decide_eq_decide, not_iff_not]
  refine ⟨fun hk => ?_, fun hk => List.map_subset _ h.old hk⟩
  obtain ⟨r, hr, hk⟩ := List.mem_map.mp hk
  rcases h.new r hr with hold | ⟨hrow, -⟩
  · exact List.mem_map.mpr ⟨r, hold, hk⟩
  · obtain ⟨j, hj, rfl⟩ := List.mem_map.mp hrow
    obtain rfl : j = i := by simpa using hk
    exact absurd hi (hd hj)

theorem enqueueMany_count_aux {chunks : List (List Id)} (hn : chunks.flatten.Nodup)
    {acc : List WatchActionRun × ℕ}
    (h : chunks.foldlM (fun (acc : List WatchActionRun × ℕ) chunk => do
      let (runs, new) ← enqueueChunk mint account watch action kind t chunk acc.1
      return (runs, acc.2 + new)) acc = (.ok (runs', n) : Except String _)) :
    n = acc.2 + (fresh account watch action chunks.flatten acc.1).length := by
  induction chunks generalizing acc with
  | nil =>
    obtain ⟨rfl, rfl⟩ := Prod.mk.inj (Except.ok.inj h)
    rfl
  | cons chunk chunks ih =>
    rw [List.foldlM_cons] at h
    obtain ⟨acc₁, h₁, h⟩ := Except.bind_eq_ok.mp h
    obtain ⟨⟨runs₁, n₁⟩, hc, h₁⟩ := Except.bind_eq_ok.mp h₁
    obtain rfl := Except.pure_eq_ok.mp h₁
    rw [List.flatten_cons, List.nodup_append'] at hn
    have hrest := ih hn.2.1 h
    rw [fresh_inserted hn.2.2 (enqueueChunk_inserted hc)] at hrest
    rw [hrest, enqueueChunk_count hc, List.flatten_cons, fresh, fresh, fresh, List.filter_append,
      List.length_append]
    omega

/-- **What the inserts add**: one run for every item without one. -/
theorem enqueueMany_count {items : List Id} (hn : items.Nodup)
    (h : enqueueMany mint account watch action kind t items runs = .ok (runs', n)) :
    n = (fresh account watch action items runs).length := by
  have hflat : (batched enqueueChunkSize items).flatten = items := flatten_batched (by decide) items
  have haux := enqueueMany_count_aux (hflat.symm ▸ hn) h
  rw [hflat] at haux
  simpa using haux

/-- A chunk adds its new rows, each under a free key. -/
theorem enqueueChunk_added {chunk : List Id} (hn : chunk.Nodup)
    (h : enqueueChunk mint account watch action kind t chunk runs = .ok (runs', n)) :
    ∃ added, runs' = runs ++ added ∧ added.length = n := by
  unfold enqueueChunk at h
  split_ifs at h
  obtain ⟨rfl, rfl⟩ := Prod.mk.inj (Except.ok.inj h)
  refine ⟨_, Table.bulkInsert_eq_append ?_ ?_, rfl⟩
  · rw [List.map_map]
    refine (hn.filter _).map fun i j hij => ?_
    exact (Prod.mk.inj (Prod.mk.inj (Prod.mk.inj hij).2).2).2
  · intro row hrow hk
    obtain ⟨i, hi, rfl⟩ := List.mem_map.mp hrow
    obtain ⟨hi, hfree⟩ := List.mem_filter.mp hi
    obtain ⟨r, hr, hk⟩ := List.mem_map.mp hk
    have hk : r.accountId = account ∧ r.watchId = watch ∧ r.actionId = action ∧ r.feedItemId = i := by
      simpa [WatchActionRun.key, newRun] using hk
    obtain ⟨ha, hw, hb, rfl⟩ := hk
    refine of_decide_eq_true hfree (List.mem_map.mpr ⟨r, List.mem_filter.mpr ⟨hr, ?_⟩, rfl⟩)
    exact decide_eq_true ⟨ha, hw, hb, hi⟩

theorem enqueueMany_added_aux {chunks : List (List Id)} (hn : ∀ chunk ∈ chunks, chunk.Nodup)
    {acc : List WatchActionRun × ℕ}
    (h : chunks.foldlM (fun (acc : List WatchActionRun × ℕ) chunk => do
      let (runs, new) ← enqueueChunk mint account watch action kind t chunk acc.1
      return (runs, acc.2 + new)) acc = (.ok (runs', n) : Except String _)) :
    ∃ added, runs' = acc.1 ++ added ∧ acc.2 + added.length = n := by
  induction chunks generalizing acc with
  | nil =>
    obtain ⟨rfl, rfl⟩ := Prod.mk.inj (Except.ok.inj h)
    exact ⟨[], (List.append_nil _).symm, rfl⟩
  | cons chunk chunks ih =>
    rw [List.foldlM_cons] at h
    obtain ⟨acc₁, h₁, h⟩ := Except.bind_eq_ok.mp h
    obtain ⟨⟨runs₁, n₁⟩, hc, h₁⟩ := Except.bind_eq_ok.mp h₁
    obtain rfl := Except.pure_eq_ok.mp h₁
    obtain ⟨added, rfl, hlen⟩ := enqueueChunk_added (hn chunk List.mem_cons_self) hc
    obtain ⟨rest, rfl, hrest⟩ := ih (fun c hc => hn c (List.mem_cons_of_mem _ hc)) h
    refine ⟨added ++ rest, List.append_assoc _ _ _, ?_⟩
    rw [List.length_append]
    dsimp only at hrest
    omega

/-- **The rows that the inserts add** come behind the rows that are there, as many as they count. -/
theorem enqueueMany_added {items : List Id} (hn : items.Nodup)
    (h : enqueueMany mint account watch action kind t items runs = .ok (runs', n)) :
    ∃ added, runs' = runs ++ added ∧ added.length = n := by
  have hflat : (batched enqueueChunkSize items).flatten = items := flatten_batched (by decide) items
  have hchunks : ∀ chunk ∈ batched enqueueChunkSize items, chunk.Nodup := fun chunk hc =>
    (hflat.symm ▸ hn).sublist (List.sublist_flatten_of_mem hc)
  obtain ⟨added, hadded, hlen⟩ := enqueueMany_added_aux hchunks h
  exact ⟨added, hadded, by omega⟩

/-- The items with a run are as many as the runs for these items. -/
theorem length_fresh (account watch action : Id) {items : List Id} (hn : items.Nodup)
    (hk : (runs.map WatchActionRun.key).Nodup) :
    (fresh account watch action items runs).length +
      countRunsForAction account watch action items false runs = items.length := by
  have hcount : countRunsForAction account watch action items false runs =
      (items.filter fun i =>
        ! decide ((account, watch, action, i) ∉ runs.map WatchActionRun.key)).length := by
    rw [countRunsForAction, List.countP_eq_length_filter, ← List.length_map (·.feedItemId)]
    refine List.Perm.length_eq ((List.perm_ext_iff_of_nodup ?_ (hn.filter _)).mpr fun i => ?_)
    · -- two runs of one action for one item would share their key
      refine (List.Nodup.of_map _ hk).filter _ |>.map_on fun r hr r' hr' hi => ?_
      simp only [List.mem_filter, decide_eq_true_eq] at hr hr'
      refine Table.eq_of_key hk hr.1 hr'.1 ?_
      obtain ⟨-, ⟨ha, hw, hb, -⟩, -⟩ := hr
      obtain ⟨-, ⟨ha', hw', hb', -⟩, -⟩ := hr'
      simp only [WatchActionRun.key, ha, hw, hb, ha', hw', hb', hi]
    · simp only [List.mem_map, List.mem_filter, decide_eq_true_eq, WatchActionRun.key,
        Bool.not_eq_true', decide_eq_false_iff_not, not_not, Prod.mk.injEq]
      constructor
      · rintro ⟨r, ⟨hr, ⟨ha, hw, hb, hi⟩, -⟩, rfl⟩
        exact ⟨hi, r, hr, ha, hw, hb, rfl⟩
      · rintro ⟨hi, r, hr, ha, hw, hb, rfl⟩
        exact ⟨r, ⟨hr, ⟨ha, hw, hb, hi⟩, by simp⟩, rfl⟩
  rw [hcount, fresh]
  exact (List.length_eq_length_filter_add _).symm

end Insert

/-! ## The job -/

section Agree

variable {S : Settings} {mint : Id → Id} {now : Time} {account watch action newId : Id}
  {windows : RunWindows} {replace : Bool} {w : World} {s : BackfillStore}
  {target : WatchAction} {source : Option Id} {head : Bool} {present : ResolvedPresent}
  {job : WatchActionBackfill}

/-- **The resolved source set.** -/
theorem of_resolvePresent (h : resolvePresent account source head watch windows w = .ok present) :
    present.presentCount = (present.source.ids account windows w.items w.runs).length ∧
      (head = false → present.source = .predecessor source ∧
        present.matched = (succeededInWindow account source windows w.items w.runs).length) ∧
      (head = true → (∃ feedIds, present.source = .head feedIds) ∧
        present.matched = present.presentCount) := by
  unfold resolvePresent at h
  cases head with
  | true =>
    simp only [if_true] at h
    split at h
    · cases h
    · split_ifs at h
      obtain rfl := Except.ok.inj h
      refine ⟨?_, fun he => (by cases he), fun _ => ⟨⟨_, rfl⟩, rfl⟩⟩
      rw [Source.ids, List.length_insertionSort, List.length_map]
  | false =>
    simp only [Bool.false_eq_true, if_false] at h
    obtain rfl := Except.ok.inj h
    refine ⟨?_, fun _ => ⟨rfl, rfl⟩, fun he => by cases he⟩
    rw [Source.ids, List.length_insertionSort, List.length_map]

theorem Source.nodup_ids (source : Source) (account : Id) (windows : RunWindows)
    (hi : (w.items.map (·.id)).Nodup) :
    (source.ids account windows w.items w.runs).Nodup := by
  rw [Source.ids, (List.perm_insertionSort _ _).nodup_iff]
  cases source with
  | head feedIds => exact hi.sublist (List.filter_sublist.map _)
  | predecessor a => exact hi.sublist (List.filter_sublist.map _)

/-- **No more items than matched runs.** -/
theorem present_le_matched (hi : (w.items.map (·.id)).Nodup)
    (h : resolvePresent account source head watch windows w = .ok present) :
    present.presentCount ≤ present.matched := by
  obtain ⟨hcount, hpred, hhead⟩ := of_resolvePresent h
  cases head with
  | true => exact (hhead rfl).2.ge
  | false =>
    obtain ⟨hsource, hmatched⟩ := hpred rfl
    have hsub : present.source.ids account windows w.items w.runs ⊆
        (succeededInWindow account source windows w.items w.runs).map (·.feedItemId) := by
      intro i hmem
      rw [hsource] at hmem
      obtain ⟨x, hx, rfl⟩ := Source.mem_ids.mp hmem
      obtain ⟨-, -, r, hr, hs, he⟩ := mem_present_predecessor.mp hx
      exact List.mem_map.mpr ⟨r, List.mem_filter.mpr ⟨hr, decide_eq_true hs⟩, he⟩
    have hle := (List.subperm_of_subset (present.source.nodup_ids _ _ hi) hsub).length_le
    rw [List.length_map] at hle
    omega

theorem length_deletePhase (hs : present.source.Apart
      ((chainFrom job.accountId s.actions target).map (·.id)))
    (hc : ((chainFrom job.accountId s.actions target).map (·.id)).Nodup)
    (hm : job.replaceDeletedAt = none) :
    (WatchBackfillOperation.deletePhase now job target present.source s).2 =
      if job.replace then ((chainFrom job.accountId s.actions target).map fun a =>
        countRunsForAction job.accountId job.watchId a.id (present.source.ids job.accountId
          job.toRunWindows s.items s.runs) true s.runs).sum else 0 := by
  unfold WatchBackfillOperation.deletePhase
  cases hr : job.replace with
  | false => simp
  | true =>
    have hlen := WatchBackfillOperation.length_deleteChain s.items s.runs job hs hc
    simp only [Bool.true_eq_false, if_false, hm, Option.isSome_none, Bool.false_eq_true, if_true]
    omega

theorem sublist_deleteChain {chain : List WatchAction} (source : Source) (items : List FeedItem)
    (runs : List WatchActionRun) :
    (WatchBackfillOperation.deleteChain job source items chain runs).Sublist runs := by
  induction chain generalizing runs with
  | nil => exact .refl _
  | cons a chain ih => exact (ih _).trans List.filter_sublist

variable (now) in
/-- The runs after the delete phase: their keys, the source set, and the target's runs. -/
theorem deletePhase_leaves (hr : (s.runs.map WatchActionRun.key).Nodup)
    (hs : present.source.Apart ((chainFrom job.accountId s.actions target).map (·.id)))
    (hc : ((chainFrom job.accountId s.actions target).map (·.id)).Nodup)
    (hm : job.replaceDeletedAt = none) :
    let runs := (WatchBackfillOperation.deletePhase now job target present.source s).1.runs
    let ids := present.source.ids job.accountId job.toRunWindows s.items s.runs
    (runs.map WatchActionRun.key).Nodup ∧
      present.source.ids job.accountId job.toRunWindows s.items runs = ids ∧
      countRunsForAction job.accountId job.watchId target.id ids false runs +
        (if job.replace then countRunsForAction job.accountId job.watchId target.id ids true s.runs
          else 0) = countRunsForAction job.accountId job.watchId target.id ids false s.runs := by
  intro runs ids
  have hruns : runs = if job.replace = true ∧ job.replaceDeletedAt = none then
      WatchBackfillOperation.deleteChain job present.source s.items
        (chainFrom job.accountId s.actions target) s.runs else s.runs :=
    WatchBackfillOperation.runs_deletePhase
  cases hrep : job.replace with
  | false =>
    rw [if_neg (by simp [hrep])] at hruns
    rw [hruns]
    exact ⟨hr, rfl, by simp⟩
  | true =>
    rw [if_pos ⟨hrep, hm⟩] at hruns
    rw [hruns]
    have htarget : target.id ∈ (chainFrom job.accountId s.actions target).map (·.id) :=
      List.mem_map_of_mem (mem_chainFrom.mpr (.inl rfl))
    have hcount := WatchBackfillOperation.count_deleteChain s.items s.runs job target.id hs hc
    rw [if_pos htarget] at hcount
    exact ⟨hr.sublist ((sublist_deleteChain ..).map _),
      WatchBackfillOperation.ids_deleteChain hs, hcount⟩

variable (S mint now) in
/-- **The first attempt of a job alone.** -/
theorem run_counts (job : WatchActionBackfill) (hr : (s.runs.map WatchActionRun.key).Nodup)
    (hi : (s.items.map (·.id)).Nodup) (ha : (s.actions.map (·.id)).Nodup)
    (ht : getAction job.accountId job.targetActionId s.actions = some target)
    (hp : resolvePresent job.accountId job.sourceActionId job.sourceIsHead job.watchId
      job.toRunWindows s.toWorld = .ok present)
    (hs : present.source.Apart ((chainFrom job.accountId s.actions target).map (·.id)))
    (hm : job.replaceDeletedAt = none) :
    ∃ s' counts, WatchBackfillOperation.run S mint now job s = .ok (s', some counts) ∧
      counts.matched = present.matched ∧ counts.present = present.presentCount ∧
      counts.pruned = present.matched - present.presentCount ∧
      counts.deleted = (if job.replace then
        ((chainFrom job.accountId s.actions target).map fun a =>
          countRunsForAction job.accountId job.watchId a.id (present.source.ids job.accountId
            job.toRunWindows s.items s.runs) true s.runs).sum else 0) ∧
      (counts.enqueued : ℤ) = present.presentCount -
        countRunsForAction job.accountId job.watchId target.id (present.source.ids job.accountId
          job.toRunWindows s.items s.runs) false s.runs +
        (if job.replace then
          countRunsForAction job.accountId job.watchId target.id (present.source.ids job.accountId
            job.toRunWindows s.items s.runs) true s.runs else 0) := by
  have hmem : target ∈ s.actions := (of_getAction ht).1
  have hc := nodup_chainFrom job.accountId ha hmem
  obtain ⟨hkeys, hids, hcount⟩ := deletePhase_leaves now hr hs hc hm
  have hitems : (WatchBackfillOperation.deletePhase now job target present.source s).1.items =
      s.items := by
    rw [WatchBackfillOperation.frame_deletePhase]
  obtain ⟨runs', n, hok, -⟩ := enqueueMany_inserted mint job.accountId job.watchId target.id
    target.kind now (WatchBackfillOperation.deletePhase now job target present.source s).1.runs
    (present.source.ids job.accountId job.toRunWindows
      (WatchBackfillOperation.deletePhase now job target present.source s).1.items
      (WatchBackfillOperation.deletePhase now job target present.source s).1.runs)
  have hrun : ∃ s', WatchBackfillOperation.run S mint now job s = .ok (s', some
      ⟨present.matched, present.presentCount, present.matched - present.presentCount,
        (WatchBackfillOperation.deletePhase now job target present.source s).2, n⟩) := by
    rw [WatchBackfillOperation.run_eq ht hp]
    dsimp only
    rw [hok]
    exact ⟨_, rfl⟩
  obtain ⟨s', hrun⟩ := hrun
  refine ⟨s', _, hrun, rfl, rfl, rfl, length_deletePhase hs hc hm, ?_⟩
  have hn := present.source.nodup_ids job.accountId job.toRunWindows hi
  rw [hitems, hids] at hok
  have hfresh := length_fresh job.accountId job.watchId target.id hn hkeys
  have henq := enqueueMany_count hn hok
  have hpres := (of_resolvePresent hp).1
  dsimp only
  split_ifs at hcount ⊢ <;> omega

/-- The counts are those of the runs gone and of the runs new. -/
def BackfillCounts.Of (counts : BackfillCounts) (runs runs' : List WatchActionRun) : Prop :=
  ∃ kept added, runs' = kept ++ added ∧ kept.Sublist runs ∧
    kept.length + counts.deleted = runs.length ∧ added.length = counts.enqueued

/-- What the delete phase counts is gone. -/
theorem length_runs_deletePhase (hm : job.replaceDeletedAt = none) :
    let left := WatchBackfillOperation.deletePhase now job target present.source s
    left.1.runs.Sublist s.runs ∧ left.1.runs.length + left.2 = s.runs.length := by
  unfold WatchBackfillOperation.deletePhase
  split_ifs with hr hd
  · exact ⟨.refl _, rfl⟩
  · rw [hm] at hd
    cases hd
  · have hsub := @sublist_deleteChain job (chainFrom job.accountId s.actions target) present.source
      s.items s.runs
    exact ⟨hsub, Nat.add_sub_cancel' hsub.length_le⟩

/-- **The store that a first attempt leaves.** -/
theorem run_leaves {s' : BackfillStore} {counts : BackfillCounts}
    (hi : (s.items.map (·.id)).Nodup)
    (ht : getAction job.accountId job.targetActionId s.actions = some target)
    (hp : resolvePresent job.accountId job.sourceActionId job.sourceIsHead job.watchId
      job.toRunWindows s.toWorld = .ok present)
    (hm : job.replaceDeletedAt = none)
    (h : WatchBackfillOperation.run S mint now job s = .ok (s', some counts)) :
    counts.Of s.runs s'.runs := by
  rw [WatchBackfillOperation.run_eq ht hp] at h
  obtain ⟨⟨runs, n⟩, hok, h⟩ := Except.bind_eq_ok.mp h
  obtain ⟨rfl, hc⟩ := Prod.mk.inj (Except.ok.inj h)
  obtain rfl := Option.some.inj hc
  have hitems : (WatchBackfillOperation.deletePhase now job target present.source s).1.items =
      s.items := by
    rw [WatchBackfillOperation.frame_deletePhase]
  obtain ⟨added, hadded, hlen⟩ := enqueueMany_added
    (present.source.nodup_ids job.accountId job.toRunWindows (hitems.symm ▸ hi)) hok
  obtain ⟨hsub, hgone⟩ := @length_runs_deletePhase now s target present job hm
  exact ⟨_, added, hadded, hsub, hgone, hlen⟩

/-- The resolved source of a target is apart from its chain. -/
theorem apart_chainFrom (ha : (w.actions.map (·.id)).Nodup) (ht : target ∈ w.actions)
    (hp : resolvePresent account ((prevInChain account target w.actions).map (·.id))
      (prevInChain account target w.actions).isNone watch windows w = .ok present) :
    present.source.Apart ((chainFrom account w.actions target).map (·.id)) := by
  obtain ⟨-, hpred, hhead⟩ := of_resolvePresent hp
  cases hprev : prevInChain account target w.actions with
  | none =>
    obtain ⟨⟨feedIds, hs⟩, -⟩ := hhead (by rw [hprev]; rfl)
    rw [hs]
    trivial
  | some prev =>
    obtain ⟨hs, -⟩ := hpred (by rw [hprev]; rfl)
    rw [hs, hprev]
    intro i hi he
    obtain ⟨b, hb, rfl⟩ := List.mem_map.mp hi
    exact prev_not_mem_chainFrom ha ht hprev hb (Option.some.inj he)

/-- The row that a claim leaves. -/
def WatchActionBackfill.claimed (job : WatchActionBackfill) (ts : Time) : WatchActionBackfill :=
  { job with state := .running, startedAt := some ts, attempts := job.attempts + 1 }

variable (S mint) in
/-- **The preview and the job agree.** On one set of tables a dry run is answered with a preview
exactly as the same request queues a job, and the counts of the claimed job, which are those of the
rows it deletes and inserts, are those of the preview. -/
theorem preview_agrees {p : BackfillPreview} (hr : (s.runs.map WatchActionRun.key).Nodup)
    (hi : (s.items.map (·.id)).Nodup) (ha : (s.actions.map (·.id)).Nodup)
    (hp : BackfillActionView.post account action watch windows replace true newId now s.toWorld =
      .previewed p) :
    ∃ job, BackfillActionView.post account action watch windows replace false newId now
        s.toWorld = .created job ∧
      ∀ ts, ∃ s' counts,
        WatchBackfillOperation.run S mint ts (job.claimed ts) s = .ok (s', some counts) ∧
        counts.Of s.runs s'.runs ∧ counts.matched = p.matched ∧ counts.present = p.present ∧
        (counts.pruned : ℤ) = p.pruned ∧ counts.deleted = p.wouldDelete ∧
        (counts.enqueued : ℤ) = p.wouldEnqueue ∧ 0 ≤ p.wouldEnqueue := by
  unfold BackfillActionView.post at hp ⊢
  cases ht : getAction account action s.actions with
  | none =>
    rw [ht] at hp
    cases hp
  | some target =>
    rw [ht] at hp
    simp only [if_true, Bool.false_eq_true, if_false] at hp ⊢
    split_ifs at hp ⊢ with hw hhead
    refine ⟨_, rfl, fun ts => ?_⟩
    split at hp
    · cases hp
    · next p' hprev =>
      obtain rfl := BackfillResponse.previewed.inj hp
      obtain ⟨present, hpres, hprev⟩ := Except.bind_eq_ok.mp hprev
      obtain rfl := Except.pure_eq_ok.mp hprev
      obtain ⟨hmem, hid, hacc⟩ := of_getAction ht
      have hle := present_le_matched hi hpres
      obtain ⟨s', counts, hrun, h1, h2, h3, h4, h5⟩ := run_counts S mint ts
        ((WatchActionBackfillService.create newId account watch target.id
          ((prevInChain account target s.actions).map fun a : WatchAction => a.id)
          (prevInChain account target s.actions).isNone replace windows now).claimed ts)
        hr hi ha (by rw [← hid] at ht; exact ht) hpres (apart_chainFrom ha hmem hpres) rfl
      have henq : (counts.enqueued : ℤ) = if replace then
          (present.presentCount : ℤ) - countRunsForAction account watch target.id
            (present.source.ids account windows s.items s.runs) false s.runs +
            countRunsForAction account watch target.id
              (present.source.ids account windows s.items s.runs) true s.runs
          else (present.presentCount : ℤ) - countRunsForAction account watch target.id
            (present.source.ids account windows s.items s.runs) false s.runs := by
        rw [h5]
        cases replace
        · exact Int.add_zero _
        · rfl
      refine ⟨s', counts, hrun, run_leaves hi (by rw [← hid] at ht; exact ht) hpres rfl hrun, h1, h2, ?_,
        h4, henq, henq ▸ Int.natCast_nonneg _⟩
      rw [h3]
      dsimp only
      omega

/-! ## A replacing request -/

/-- A chain of two steps; item 1 has a succeeded run of the first step, and a succeeded and a
pending run after it. -/
def replayStore : BackfillStore where
  actions := [sampleAction 1 instantConfig 0, sampleAction 2 instantConfig 1,
    sampleAction 3 instantConfig 2]
  items := [sampleItem 1, sampleItem 2]
  watches := [sampleWatch]
  watchFeeds := [sampleWatchFeed none]
  runs := [
    { sampleRun 1 1 1 with state := .succeeded, completedAt := some 5 },
    { sampleRun 2 1 2 with state := .succeeded, completedAt := some 6 },
    { sampleRun 3 2 1 with state := .succeeded, completedAt := some 7 },
    { sampleRun 4 3 1 with state := .gated, completedAt := some 8 }]

theorem chainFrom_replayStore :
    chainFrom 1 replayStore.actions (sampleAction 2 instantConfig 1) =
      [sampleAction 2 instantConfig 1, sampleAction 3 instantConfig 2] := by
  rw [chainFrom_of_next (a := sampleAction 3 instantConfig 2) rfl, chainFrom_of_tail rfl]

theorem preview_replayStore :
    BackfillActionView.post 1 2 1 { completedSince := some 0 } true true 9 10
      replayStore.toWorld = .previewed ⟨some 1, false, true, 2, 2, 0, 2, 2⟩ := by
  have hp : BackfillActionView.preview 1 (sampleAction 2 instantConfig 1) (some 1) false 1
      { completedSince := some 0 } true replayStore.toWorld =
        .ok ⟨some 1, false, true, 2, 2, 0, 2, 2⟩ := by
    unfold BackfillActionView.preview
    rw [chainFrom_replayStore]
    rfl
  have hpost : BackfillActionView.post 1 2 1 { completedSince := some 0 } true true 9 10
      replayStore.toWorld = match BackfillActionView.preview 1 (sampleAction 2 instantConfig 1)
        (some 1) false 1 { completedSince := some 0 } true replayStore.toWorld with
      | .error e => .failed e
      | .ok p => .previewed p := rfl
  rw [hpost, hp]

/-- The two deletes and the two inserts that the preview of step 2 announces. -/
theorem preview_agrees_sample : ∃ job s' counts,
    BackfillActionView.post 1 2 1 { completedSince := some 0 } true false 9 10
        replayStore.toWorld = .created job ∧
      WatchBackfillOperation.run {} (· + 10) 20 (job.claimed 20) replayStore =
        .ok (s', some counts) ∧ counts.Of replayStore.runs s'.runs ∧ counts.deleted = 2 ∧
        counts.enqueued = 2 := by
  obtain ⟨job, hjob, hrun⟩ := preview_agrees {} (· + 10) (by decide) (by decide) (by decide)
    preview_replayStore
  obtain ⟨s', counts, hok, hof, -, -, -, hd, he, -⟩ := hrun 20
  exact ⟨job, s', counts, hjob, hok, hof, hd, Int.ofNat_inj.mp he⟩

end Agree

end OpenMagpie
