import OpenMagpie.Watches.BackfillPass
import OpenMagpie.Watches.Watermark

/-!
# Deleting a watch

`WatchService.delete` walks the tables of a watch in one transaction: its runs, its paths and their
actions, the actions' windows, the subscriptions and the watch. Each statement selects the rows that
are there when it executes, and the other passes see nothing of it before the commit.

* `WatchDelete.Step`: the statements of a delete; `DeleteSystem`: any number of them beside the
  passes and the job queue.
* `NoRows`: nothing of a watch is stored.
* `NoLateInsert`: no run of a watch is inserted after the statement that deletes them, and no window
  of its actions after theirs.
* **`delete_leaves_nothing`**: when that holds, nothing of a deleted watch is stored from its delete on.
* **`delete_leaves_rows`**: a trigger pass that has loaded the watch before the delete.
-/

set_option autoImplicit false

namespace OpenMagpie

open Interleave

/-! ## The statements -/

/-- A path of a watch. -/
structure WatchPath where
  id : Id
  accountId : Id
  watchId : Id
  deriving DecidableEq

/-- The account and id of a watch. -/
abbrev WatchKey := Id × Id

/-- The tables of the passes and the job queue, and the paths; and, for the record, the watches whose
delete has committed. -/
structure DeleteStore extends BackfillStore where
  paths : List WatchPath := []
  deleted : List WatchKey := []

/-- The filter on the columns `account_id` and `watch_id`. -/
def OfWatch (k : WatchKey) (account watch : Id) : Prop := account = k.1 ∧ watch = k.2

instance (k : WatchKey) (account watch : Id) : Decidable (OfWatch k account watch) := by
  unfold OfWatch; infer_instance

/-- The ids of the watch's runs. -/
def runIds (k : WatchKey) (runs : List WatchActionRun) : List Id :=
  (runs.filter fun r => decide (OfWatch k r.accountId r.watchId)).map (·.id)

/-- The ids of the watch's paths. -/
def pathIds (k : WatchKey) (paths : List WatchPath) : List Id :=
  (paths.filter fun x => decide (OfWatch k x.accountId x.watchId)).map (·.id)

/-- The ids of the actions of some paths. -/
def actionIds (account : Id) (paths : List Id) (actions : List WatchAction) : List Id :=
  (actions.filter fun a => decide (a.accountId = account ∧ a.pathId ∈ paths)).map (·.id)

/-- The keys of the windows of some actions. -/
def keysOfActions (account : Id) (actions : List Id) (windows : List WatchActionDigestWindow) :
    List WindowKey :=
  (windows.filter fun v => decide (v.accountId = account ∧ v.actionId ∈ actions)).map (·.key)

/-- What a delete of a watch has selected so far. -/
structure Deletion where
  watch : WatchKey
  runs : List Id
  paths : List Id := []
  actions : List Id := []
  windows : List WindowKey := []

/-- Where a delete stands, by its last statement. -/
inductive WatchDelete
  | idle
  | loaded (watch : WatchKey)
  | ranRuns (d : Deletion)
  | readPaths (d : Deletion)
  | readActions (d : Deletion)
  | ranWindows (d : Deletion)

/-- The commit. -/
def DeleteStore.delete (d : Deletion) (s : DeleteStore) : DeleteStore :=
  { s with
    runs := s.runs.filter fun r => decide (r.id ∉ d.runs)
    windows := s.windows.filter fun v => decide (v.key ∉ d.windows)
    actions := s.actions.filter fun a => decide (¬ (a.accountId = d.watch.1 ∧ a.pathId ∈ d.paths))
    paths := s.paths.filter fun x => decide (¬ OfWatch d.watch x.accountId x.watchId)
    watchFeeds := s.watchFeeds.filter fun f => decide (¬ OfWatch d.watch f.accountId f.watchId)
    watches := s.watches.filter fun x => decide (x.id ≠ d.watch.2)
    deleted := d.watch :: s.deleted }

/-- The statements of `WatchService.delete`. No pass inserts into the last four tables, so their
statements are one step with the commit. -/
inductive WatchDelete.Step : WatchDelete → DeleteStore → DeleteStore → WatchDelete → Prop
  | load {s : DeleteStore} (watch : Watch) (hw : watch ∈ s.watches) :
      Step .idle s s (.loaded (watch.accountId, watch.id))
  | runs {s : DeleteStore} {k : WatchKey} :
      Step (.loaded k) s s (.ranRuns { watch := k, runs := runIds k s.runs })
  | paths {s : DeleteStore} {d : Deletion} :
      Step (.ranRuns d) s s (.readPaths { d with paths := pathIds d.watch s.paths })
  | actions {s : DeleteStore} {d : Deletion} :
      Step (.readPaths d) s s
        (.readActions { d with actions := actionIds d.watch.1 d.paths s.actions })
  | windows {s : DeleteStore} {d : Deletion} :
      Step (.readActions d) s s
        (.ranWindows { d with windows := keysOfActions d.watch.1 d.actions s.windows })
  | commit {s : DeleteStore} {d : Deletion} : Step (.ranWindows d) s (s.delete d) .idle
  | rollback {t : WatchDelete} {s : DeleteStore} : Step t s s .idle

/-! ## The system -/

/-- One thread: of the passes and the job queue, or a delete. -/
inductive DeleteThread
  | pass (t : BackfillThread)
  | delete (d : WatchDelete)

/-- A thread before its first step, or after its last. -/
def DeleteThread.Idle : DeleteThread → Prop
  | .pass t => t.Idle
  | .delete d => d = .idle

variable {C : Type} (S : Settings) (E : Executors) (R : Registry C)

/-- **The system with deletes of watches.** -/
inductive DeleteSystem (on : Component → Prop) : ThreadRel DeleteStore DeleteThread
  | pass {t t' : BackfillThread} {s : DeleteStore} {b : BackfillStore}
      (h : BackfillSystem S E R on t s.toBackfillStore b t') :
      DeleteSystem on (.pass t) s { s with toBackfillStore := b } (.pass t')
  | delete {d d' : WatchDelete} {s s' : DeleteStore} (h : d.Step s s' d') :
      DeleteSystem on (.delete d) s s' (.delete d')

/-- Everything but edits. -/
def Unedited (k : Component) : Prop := k ≠ .edit

instance : DecidablePred Unedited := fun _ => by unfold Unedited; infer_instance

/-- The store, before any pass or delete. -/
def DeleteInit (s₀ : DeleteStore) (c : Conf DeleteStore DeleteThread) : Prop :=
  c.shared = s₀ ∧ (s₀.paths.map (·.id)).Nodup ∧ s₀.deleted = [] ∧ ∀ p, (c.thread p).Idle

/-- The ids of the actions that the watch has in a store. -/
def DeleteStore.actionsOf (s : DeleteStore) (k : WatchKey) : List Id :=
  actionIds k.1 (pathIds k s.paths) s.actions

/-- Nothing of the watch is stored, by the paths and actions that it had at first. -/
structure NoRows (s₀ : DeleteStore) (k : WatchKey) (s : DeleteStore) : Prop where
  watches : ∀ x ∈ s.watches, x.id ≠ k.2
  paths : ∀ x ∈ s.paths, ¬ OfWatch k x.accountId x.watchId
  watchFeeds : ∀ f ∈ s.watchFeeds, ¬ OfWatch k f.accountId f.watchId
  actions : ∀ a ∈ s.actions, ¬ (a.accountId = k.1 ∧ a.pathId ∈ pathIds k s₀.paths)
  runs : ∀ r ∈ s.runs, ¬ OfWatch k r.accountId r.watchId
  windows : ∀ v ∈ s.windows, ¬ (v.accountId = k.1 ∧ v.actionId ∈ s₀.actionsOf k)

/-- What a delete in progress has selected. -/
def DeleteThread.deletion : DeleteThread → Option Deletion
  | .delete (.ranRuns d) | .delete (.readPaths d) | .delete (.readActions d)
  | .delete (.ranWindows d) => some d
  | _ => none

/-- A delete of the watch has executed its statement on the runs. -/
def RunsSelected (c : Conf DeleteStore DeleteThread) (k : WatchKey) : Prop :=
  k ∈ c.shared.deleted ∨ ∃ q, ∃ d ∈ (c.thread q).deletion, d.watch = k

/-- A delete of the watch has executed its statement on the windows. -/
def WindowsSelected (c : Conf DeleteStore DeleteThread) (k : WatchKey) : Prop :=
  k ∈ c.shared.deleted ∨ ∃ q d, c.thread q = .delete (.ranWindows d) ∧ d.watch = k

/-- No run of a watch is inserted once a delete has selected its runs, and no window of its actions
once a delete has selected the windows. -/
def NoLateInsert (s₀ : DeleteStore) : StepCond DeleteStore DeleteThread := fun c _ s _ =>
  (∀ k, RunsSelected c k → ∀ r ∈ s.runs, OfWatch k r.accountId r.watchId →
    r.id ∈ runIds k c.shared.runs) ∧
  ∀ k, WindowsSelected c k → ∀ v ∈ s.windows, v.accountId = k.1 → v.actionId ∈ s₀.actionsOf k →
    v.key ∈ c.shared.windows.map (·.key)

/-! ## What the statements select -/

section Select

variable {k k' : WatchKey} {account i : Id} {paths : List WatchPath} {actions : List WatchAction}
  {runs : List WatchActionRun} {windows : List WatchActionDigestWindow} {ids : List Id}
  {v : WatchActionDigestWindow}

theorem mem_runIds : i ∈ runIds k runs ↔
    ∃ r ∈ runs, OfWatch k r.accountId r.watchId ∧ r.id = i := by
  simp [runIds, and_assoc]

theorem mem_pathIds : i ∈ pathIds k paths ↔
    ∃ x ∈ paths, OfWatch k x.accountId x.watchId ∧ x.id = i := by
  simp [pathIds, and_assoc]

theorem mem_actionIds : i ∈ actionIds account ids actions ↔
    ∃ a ∈ actions, (a.accountId = account ∧ a.pathId ∈ ids) ∧ a.id = i := by
  simp [actionIds, and_assoc]

theorem mem_keysOfActions (hv : v ∈ windows) (ha : v.accountId = account)
    (hi : v.actionId ∈ ids) : v.key ∈ keysOfActions account ids windows :=
  List.mem_map_of_mem (List.mem_filter.mpr ⟨hv, decide_eq_true ⟨ha, hi⟩⟩)

theorem OfWatch.unique {account watch : Id} (h : OfWatch k account watch)
    (h' : OfWatch k' account watch) : k = k' :=
  Prod.ext (h.1.symm.trans h'.1) (h.2.symm.trans h'.2)

/-- A path belongs to one watch. -/
theorem pathIds_unique (hn : (paths.map (·.id)).Nodup) (h : i ∈ pathIds k paths)
    (h' : i ∈ pathIds k' paths) : k = k' := by
  obtain ⟨x, hx, hk, rfl⟩ := mem_pathIds.mp h
  obtain ⟨y, hy, hk', hid⟩ := mem_pathIds.mp h'
  obtain rfl := Table.eq_of_key hn hy hx hid
  exact hk.unique hk'

end Select

/-! ## What a step keeps -/

section Keep

variable {S E R} {s₀ s s' : DeleteStore} {c : Conf DeleteStore DeleteThread} {k : WatchKey}
  {d : Deletion} {t : DeleteThread}

/-- The job queue writes no configuration. -/
theorem Backfill.Step.configured {b b' : Backfill} {s s' : BackfillStore} (h : b.Step S s s' b') :
    Configured s.toWorld s'.toWorld := by
  cases h <;> exact ⟨rfl, rfl, rfl⟩

theorem BackfillSystem.configured {on : Component → Prop} {t t' : BackfillThread}
    {s s' : BackfillStore} (he : ¬ on .edit) (h : BackfillSystem S E R on t s s' t') :
    Configured s.toWorld s'.toWorld := by
  cases h with
  | pass h => exact h.configured he
  | worker h => exact h.configured
  | reap h => cases h <;> exact ⟨rfl, rfl, rfl⟩
  | submit => exact ⟨rfl, rfl, rfl⟩

/-- The paths and actions that are stored, and the watches of which nothing is. -/
structure Stored (s₀ s : DeleteStore) : Prop where
  paths : s.paths ⊆ s₀.paths
  actions : s.actions ⊆ s₀.actions
  allPaths : ∀ k ∉ s.deleted, pathIds k s₀.paths ⊆ pathIds k s.paths
  allActions : ∀ k ∉ s.deleted, s₀.actionsOf k ⊆ actionIds k.1 (pathIds k s₀.paths) s.actions
  gone : ∀ k ∈ s.deleted, NoRows s₀ k s

/-- The delete has selected every run of its watch. -/
def Deletion.RunsIn (s : DeleteStore) (d : Deletion) : Prop := runIds d.watch s.runs ⊆ d.runs

/-- It has read the paths of its watch, all of them unless another delete has removed them. -/
def Deletion.PathsIn (s₀ s : DeleteStore) (d : Deletion) : Prop :=
  d.paths ⊆ pathIds d.watch s₀.paths ∧
    (d.watch ∈ s.deleted ∨ pathIds d.watch s₀.paths ⊆ d.paths)

/-- It has read their actions. -/
def Deletion.ActionsIn (s₀ s : DeleteStore) (d : Deletion) : Prop :=
  d.watch ∈ s.deleted ∨ s₀.actionsOf d.watch ⊆ d.actions

/-- It has selected every window of these. -/
def Deletion.WindowsIn (s₀ s : DeleteStore) (d : Deletion) : Prop :=
  ∀ v ∈ s.windows, v.accountId = d.watch.1 → v.actionId ∈ s₀.actionsOf d.watch → v.key ∈ d.windows

/-- What a delete knows, by its last statement. -/
def DeleteThread.Knows (s₀ s : DeleteStore) : DeleteThread → Prop
  | .delete (.ranRuns d) => d.RunsIn s
  | .delete (.readPaths d) => d.RunsIn s ∧ d.PathsIn s₀ s
  | .delete (.readActions d) => d.RunsIn s ∧ d.PathsIn s₀ s ∧ d.ActionsIn s₀ s
  | .delete (.ranWindows d) => d.RunsIn s ∧ d.PathsIn s₀ s ∧ d.WindowsIn s₀ s
  | _ => True

/-- A window whose key was there has the columns of that window. -/
theorem window_of_key {windows : List WatchActionDigestWindow} {v : WatchActionDigestWindow}
    (h : v.key ∈ windows.map (·.key)) :
    ∃ v' ∈ windows, v'.key = v.key ∧ v'.accountId = v.accountId ∧ v'.actionId = v.actionId := by
  obtain ⟨v', hv', hk⟩ := List.mem_map.mp h
  exact ⟨v', hv', hk, congrArg Prod.fst hk, congrArg Prod.snd hk⟩

/-- A delete keeps what it knows while no run and no window is inserted behind it. -/
theorem DeleteThread.Knows.keep (h : t.Knows s₀ s) (hd : s.deleted ⊆ s'.deleted)
    (hr : ∀ d ∈ t.deletion, runIds d.watch s'.runs ⊆ runIds d.watch s.runs)
    (hw : ∀ d, t = .delete (.ranWindows d) → ∀ v ∈ s'.windows, v.accountId = d.watch.1 →
      v.actionId ∈ s₀.actionsOf d.watch → v.key ∈ s.windows.map (·.key)) : t.Knows s₀ s' := by
  have hp {d : Deletion} (h : d.PathsIn s₀ s) : d.PathsIn s₀ s' := ⟨h.1, h.2.imp_left (@hd _)⟩
  cases t with
  | pass => trivial
  | delete x =>
    cases x with
    | idle | loaded => trivial
    | ranRuns d => exact List.Subset.trans (hr d rfl) h
    | readPaths d => exact ⟨List.Subset.trans (hr d rfl) h.1, hp h.2⟩
    | readActions d => exact ⟨List.Subset.trans (hr d rfl) h.1, hp h.2.1, h.2.2.imp_left (@hd _)⟩
    | ranWindows d =>
      refine ⟨List.Subset.trans (hr d rfl) h.1, hp h.2.1, fun v hv ha hi => ?_⟩
      obtain ⟨v', hv', hk, ha', hi'⟩ := window_of_key (hw d rfl v hv ha hi)
      rw [← hk]
      exact h.2.2 v' hv' (ha'.trans ha) (hi' ▸ hi)

/-- Removing rows keeps a watch without rows. -/
theorem NoRows.subset (h : NoRows s₀ k s) (hwatches : s'.watches ⊆ s.watches)
    (hpaths : s'.paths ⊆ s.paths) (hfeeds : s'.watchFeeds ⊆ s.watchFeeds)
    (hactions : s'.actions ⊆ s.actions) (hruns : s'.runs ⊆ s.runs)
    (hwindows : s'.windows ⊆ s.windows) : NoRows s₀ k s' :=
  ⟨fun x hx => h.watches x (hwatches hx), fun x hx => h.paths x (hpaths hx),
    fun x hx => h.watchFeeds x (hfeeds hx), fun x hx => h.actions x (hactions hx),
    fun x hx => h.runs x (hruns hx), fun x hx => h.windows x (hwindows hx)⟩

/-- A pass that inserts nothing for the watch keeps it without rows. -/
theorem NoRows.configured (h : NoRows s₀ k s) (hc : Configured s.toWorld s'.toWorld)
    (hp : s'.paths = s.paths)
    (hr : ∀ r ∈ s'.runs, OfWatch k r.accountId r.watchId → r.id ∈ runIds k s.runs)
    (hw : ∀ v ∈ s'.windows, v.accountId = k.1 → v.actionId ∈ s₀.actionsOf k →
      v.key ∈ s.windows.map (·.key)) : NoRows s₀ k s' where
  watches := hc.watches ▸ h.watches
  paths := hp ▸ h.paths
  watchFeeds f hf hk := by
    have hm : f.subscription ∈ s.watchFeeds.map WatchFeed.subscription :=
      hc.subscriptions ▸ List.mem_map_of_mem hf
    obtain ⟨f', hf', he⟩ := List.mem_map.mp hm
    simp only [WatchFeed.subscription, Prod.mk.injEq] at he
    exact h.watchFeeds f' hf' (by rw [he.2.1, he.2.2.1]; exact hk)
  actions := hc.actions ▸ h.actions
  runs r hm hk := by
    obtain ⟨r', hr', hk', -⟩ := mem_runIds.mp (hr r hm hk)
    exact h.runs r' hr' hk'
  windows v hv hk := by
    obtain ⟨v', hv', -, ha, hi⟩ := window_of_key (hw v hv hk.1 hk.2)
    exact h.windows v' hv' ⟨ha.trans hk.1, hi ▸ hk.2⟩

/-- A pass keeps the configuration, and nothing of a deleted watch comes back. -/
theorem Stored.pass (h : Stored s₀ s) (hc : Configured s.toWorld s'.toWorld)
    (hp : s'.paths = s.paths) (hd : s'.deleted = s.deleted)
    (hgone : ∀ k ∈ s.deleted, NoRows s₀ k s') : Stored s₀ s' where
  paths := hp ▸ h.paths
  actions := hc.actions ▸ h.actions
  allPaths := by rw [hp, hd]; exact h.allPaths
  allActions := by rw [hd, hc.actions]; exact h.allActions
  gone := by rw [hd]; exact hgone

theorem NoRows.delete (h : NoRows s₀ k s) (d : Deletion) : NoRows s₀ k (s.delete d) :=
  h.subset (List.filter_subset_self _) (List.filter_subset_self _) (List.filter_subset_self _)
    (List.filter_subset_self _) (List.filter_subset_self _) (List.filter_subset_self _)

/-- **The commit of a delete.** -/
theorem NoRows.of_delete (hr : d.RunsIn s) (hp : pathIds d.watch s₀.paths ⊆ d.paths)
    (hw : d.WindowsIn s₀ s) : NoRows s₀ d.watch (s.delete d) where
  watches x hx := of_decide_eq_true (List.mem_filter.mp hx).2
  paths x hx := of_decide_eq_true (List.mem_filter.mp hx).2
  watchFeeds f hf := of_decide_eq_true (List.mem_filter.mp hf).2
  actions a ha hk := by
    have hn := of_decide_eq_true (List.mem_filter.mp ha).2
    exact hn ⟨hk.1, hp hk.2⟩
  runs r hm hk := by
    obtain ⟨hm, hn⟩ := List.mem_filter.mp hm
    exact of_decide_eq_true hn (hr (mem_runIds.mpr ⟨r, hm, hk, rfl⟩))
  windows v hv hk := by
    obtain ⟨hv, hn⟩ := List.mem_filter.mp hv
    exact of_decide_eq_true hn (hw v hv hk.1 hk.2)

/-- The commit leaves the other watches' paths and actions. -/
theorem Stored.delete (h : Stored s₀ s) (hn : (s₀.paths.map (·.id)).Nodup) (hr : d.RunsIn s)
    (hp : d.PathsIn s₀ s) (hw : d.WindowsIn s₀ s) : Stored s₀ (s.delete d) where
  paths := List.Subset.trans (List.filter_subset_self _) h.paths
  actions := List.Subset.trans (List.filter_subset_self _) h.actions
  allPaths k hk i hi := by
    obtain ⟨hne, hk⟩ := not_or.mp (mt List.mem_cons.mpr hk)
    obtain ⟨x, hx, hkx, rfl⟩ := mem_pathIds.mp (h.allPaths k hk hi)
    refine mem_pathIds.mpr ⟨x, List.mem_filter.mpr ⟨hx, decide_eq_true fun hd => ?_⟩, hkx, rfl⟩
    exact hne (hkx.unique hd)
  allActions k hk i hi := by
    obtain ⟨hne, hk⟩ := not_or.mp (mt List.mem_cons.mpr hk)
    obtain ⟨a, ha, hka, rfl⟩ := mem_actionIds.mp (h.allActions k hk hi)
    refine mem_actionIds.mpr ⟨a, List.mem_filter.mpr ⟨ha, decide_eq_true fun hd => ?_⟩, hka, rfl⟩
    exact hne (pathIds_unique hn hka.2 (hp.1 hd.2))
  gone k hk := by
    by_cases hd : k ∈ s.deleted
    · exact (h.gone k hd).delete d
    · obtain rfl | hk := List.mem_cons.mp hk
      · exact .of_delete hr (hp.2.resolve_left hd) hw
      · exact absurd hk hd

/-- What a delete knows after a statement of its own. -/
theorem WatchDelete.Step.knows {x x' : WatchDelete} (h : x.Step s s' x') (hs : Stored s₀ s)
    (hk : (DeleteThread.delete x).Knows s₀ s) : (DeleteThread.delete x').Knows s₀ s' := by
  cases h with
  | load | commit | rollback => trivial
  | runs => exact List.Subset.refl _
  | @paths s d =>
    refine ⟨hk, fun i hi => ?_, ?_⟩
    · obtain ⟨y, hy, hd, rfl⟩ := mem_pathIds.mp hi
      exact mem_pathIds.mpr ⟨y, hs.paths hy, hd, rfl⟩
    · by_cases hd : d.watch ∈ s.deleted
      · exact .inl hd
      · exact .inr (hs.allPaths _ hd)
  | @actions s d =>
    refine ⟨hk.1, hk.2, ?_⟩
    obtain hd | hp := hk.2.2
    · exact .inl hd
    by_cases hd : d.watch ∈ s.deleted
    · exact .inl hd
    refine .inr fun i hi => ?_
    obtain ⟨a, ha, hka, rfl⟩ := mem_actionIds.mp (hs.allActions _ hd hi)
    exact mem_actionIds.mpr ⟨a, ha, ⟨hka.1, hp hka.2⟩, rfl⟩
  | @windows s d =>
    refine ⟨hk.1, hk.2.1, fun v hv ha hi => ?_⟩
    obtain hd | hact := hk.2.2
    · exact absurd ⟨ha, hi⟩ ((hs.gone _ hd).windows v hv)
    · exact mem_keysOfActions hv ha (hact hi)

/-- **One step of the system.** -/
theorem DeleteSystem.stored {on : Component → Prop} (he : ¬ on .edit)
    (hn : (s₀.paths.map (·.id)).Nodup) {p : ℕ} {t' : DeleteThread}
    (h : DeleteSystem S E R on (c.thread p) c.shared s' t') (hc : NoLateInsert s₀ c p s' t')
    (hs : Stored s₀ c.shared) (hk : ∀ q, (c.thread q).Knows s₀ c.shared) :
    Stored s₀ s' ∧ t'.Knows s₀ s' ∧ ∀ q, q ≠ p → (c.thread q).Knows s₀ s' := by
  -- what the others know survives the step
  have hother (hd : c.shared.deleted ⊆ s'.deleted) (q : ℕ) : (c.thread q).Knows s₀ s' := by
    refine (hk q).keep hd (fun d hd i hi => ?_) fun d hd v hv ha hi => ?_
    · obtain ⟨r, hr, hw, rfl⟩ := mem_runIds.mp hi
      exact hc.1 _ (.inr ⟨q, d, hd, rfl⟩) r hr hw
    · exact hc.2 _ (.inr ⟨q, d, hd, rfl⟩) v hv ha hi
  have hkp := hk p
  generalize ht : c.thread p = t at h hkp
  cases h with
  | pass h =>
    refine ⟨hs.pass (h.configured he) rfl rfl fun k hd => ?_, trivial, fun q _ =>
      hother (List.Subset.refl _) q⟩
    exact (hs.gone k hd).configured (h.configured he) rfl (hc.1 k (.inl hd)) (hc.2 k (.inl hd))
  | delete h =>
    refine ⟨?_, h.knows hs hkp, fun q _ => ?_⟩
    · cases h with
      | commit => exact hs.delete hn hkp.1 hkp.2.1 hkp.2.2
      | _ => exact hs
    · cases h with
      | commit => exact hother (List.subset_cons_self _ _) q
      | _ => exact hk q

theorem DeleteInit.stored (h : DeleteInit s₀ c) :
    ((s₀.paths.map (·.id)).Nodup ∧ Stored s₀ c.shared) ∧
      ∀ q, (c.thread q).Knows s₀ c.shared := by
  obtain ⟨hs, hn, hd, hidle⟩ := h
  refine ⟨⟨hn, ?_⟩, fun q => ?_⟩
  · rw [hs]
    refine ⟨List.Subset.refl _, List.Subset.refl _, fun k _ => List.Subset.refl _,
      fun k _ => List.Subset.refl _, fun k hk => ?_⟩
    rw [hd] at hk
    exact absurd hk List.not_mem_nil
  · have hq := hidle q
    generalize c.thread q = t at hq
    cases t with
    | pass => trivial
    | delete x =>
      obtain rfl : x = .idle := hq
      trivial

/-- **A delete leaves nothing of its watch**, in every run of passes, jobs and deletes that inserts
nothing late. -/
theorem delete_leaves_nothing {on : Component → Prop} (he : ¬ on .edit)
    (h : ReachIn (DeleteSystem S E R on) (DeleteInit s₀) (NoLateInsert s₀) c)
    (hk : k ∈ c.shared.deleted) : NoRows s₀ k c.shared := by
  have hinv := h.each (G := fun s => (s₀.paths.map (·.id)).Nodup ∧ Stored s₀ s)
    (L := fun s t => DeleteThread.Knows s₀ s t) (fun _ hi => hi.stored)
    (fun hG hL hs hc => by
      obtain ⟨hst, hkn, -⟩ := hs.stored he hG.1 hc hG.2 hL
      exact ⟨⟨hG.1, hst⟩, hkn⟩)
    fun hG hL hs hc hq => (hs.stored he hG.1 hc hG.2 hL).2.2 _ hq
  exact hinv.1.2.gone k hk

end Keep

/-! ## A pass that has loaded the watch -/

section Sample

/-- The system over the small deployment. -/
abbrev SampleDeletes : ThreadRel DeleteStore DeleteThread :=
  DeleteSystem {} sampleExecutors sampleRegistry Unedited

/-- A store with the path of watch 1. -/
def pathStore (w : World) : DeleteStore := { toWorld := w, paths := [⟨1, 1, 1⟩] }

/-- A trigger pass and a delete. -/
def triggerAndDelete : ℕ → DeleteThread
  | 0 => .pass (.pass (.trigger .idle))
  | 1 => .delete .idle
  | _ => .pass (.pass .env)

theorem init_triggerAndDelete (w : World) :
    DeleteInit (pathStore w) ⟨pathStore w, triggerAndDelete⟩ := by
  refine ⟨rfl, List.nodup_singleton _, rfl, fun p => ?_⟩
  match p with
  | 0 | 1 => rfl
  | _ + 2 => trivial

/-- A step that adds no run and no window is not late. -/
theorem noLateInsert_of_subset {s₀ s : DeleteStore} {c : Conf DeleteStore DeleteThread} {p : ℕ}
    {t : DeleteThread} (hr : s.runs ⊆ c.shared.runs) (hw : s.windows ⊆ c.shared.windows) :
    NoLateInsert s₀ c p s t :=
  ⟨fun _ _ r hm hk => mem_runIds.mpr ⟨r, hr hm, hk, rfl⟩,
    fun _ _ _ hv _ _ => List.mem_map_of_mem (hw hv)⟩

/-- What the delete of watch 1 selects of the sample store. -/
def sampleDeletion (w : World) : Deletion where
  watch := (1, 1)
  runs := runIds (1, 1) w.runs
  paths := [1]
  actions := actionIds 1 [1] w.actions
  windows := keysOfActions 1 (actionIds 1 [1] w.actions) w.windows

/-- A delete of watch 1. -/
theorem reach_deleted {s₀ : DeleteStore} {c : Conf DeleteStore DeleteThread} {w : World}
    (h : ReachIn SampleDeletes (DeleteInit s₀) (NoLateInsert s₀) c)
    (hc : c.shared = pathStore w) (hw : sampleWatch ∈ w.watches)
    (ht : c.thread 1 = .delete .idle) :
    ReachIn SampleDeletes (DeleteInit s₀) (NoLateInsert s₀)
      (c.set 1 ((pathStore w).delete (sampleDeletion w)) (.delete .idle)) := by
  have hload : WatchDelete.Step .idle (pathStore w) (pathStore w) (.loaded (1, 1)) :=
    .load sampleWatch hw
  have same {c : Conf DeleteStore DeleteThread} {t : DeleteThread}
      (hc : c.shared = pathStore w) : NoLateInsert s₀ c 1 (pathStore w) t :=
    noLateInsert_of_subset (hc ▸ List.Subset.refl _) (hc ▸ List.Subset.refl _)
  have h₁ := h.next 1 (.delete hload) ht hc (same hc)
  have h₂ := h₁.again (.delete .runs) (same rfl)
  have h₃ := h₂.again (.delete .paths) (same rfl)
  have h₄ := h₃.again (.delete .actions) (same rfl)
  have h₅ := h₄.again (.delete .windows) (same rfl)
  exact h₅.again (.delete .commit)
    (noLateInsert_of_subset (List.filter_subset_self _) (List.filter_subset_self _))

/-- The window of the digest and a pending run are deleted with their watch. -/
theorem delete_leaves_nothing_sample : ∃ s₀ s : DeleteStore,
    s₀.runs.length = 1 ∧ s₀.windows.length = 1 ∧ NoRows s₀ (1, 1) s := by
  let w : World := { watchedDigest with runs := [sampleRun 5 1 1], windows := [⟨1, 1, some 60⟩] }
  have h : ReachIn SampleDeletes (DeleteInit (pathStore w)) (NoLateInsert (pathStore w))
      ⟨pathStore w, triggerAndDelete⟩ := .init (init_triggerAndDelete w)
  have h₁ := reach_deleted h rfl List.mem_cons_self rfl
  exact ⟨pathStore w, _, rfl, rfl, delete_leaves_nothing nofun h₁ List.mem_cons_self⟩

/-- The tables after the delete. -/
def watchGone : World := { boundRead with actions := [], watches := [], watchFeeds := [] }

/-- The tables after the pass has gone on. -/
def watchLeft : World :=
  { watchGone with
    windows := [⟨1, 1, some 60⟩]
    runs := [newRun 11 1 1 1 "log" 1 60 none] }

/-- **A pass that loaded the watch before the delete.** It opens a window of the deleted action and
enqueues a run of the deleted watch; all have finished, and both rows stay. -/
theorem delete_leaves_rows : ∃ c : Conf DeleteStore DeleteThread,
    Reach SampleDeletes (DeleteInit (pathStore watchedDigest)) c ∧
    (1, 1) ∈ c.shared.deleted ∧ (∀ p, (c.thread p).Idle) ∧
    (∃ r ∈ c.shared.runs, OfWatch (1, 1) r.accountId r.watchId) ∧
    ∃ v ∈ c.shared.windows, v.accountId = 1 ∧
      v.actionId ∈ (pathStore watchedDigest).actionsOf (1, 1) := by
  have hopen : Trigger.Step sampleRegistry (.bounded digestScan) watchGone
      { watchGone with windows := [⟨1, 1, some 60⟩] } (.scanning openScan 60 none) :=
    .openWindow (w := watchGone) (s := digestScan) rfl rfl (by decide)
  have hpage : Trigger.Step sampleRegistry (.scanning openScan 60 none)
      { watchGone with windows := [⟨1, 1, some 60⟩] }
      { watchGone with windows := [⟨1, 1, some 60⟩] } (.paged openScan 60 [1]) :=
    .page (by decide)
  have hchunk : Trigger.Step sampleRegistry (.paged openScan 60 [1])
      { watchGone with windows := [⟨1, 1, some 60⟩] } watchLeft (.scanned openScan) :=
    .chunk (.add (n := 10) (by decide)) rfl
  have same {c : Conf DeleteStore DeleteThread} {s : DeleteStore} {t : DeleteThread}
      (hr : s.runs = []) (hw : s.windows = []) :
      NoLateInsert (pathStore watchedDigest) c 0 s t :=
    noLateInsert_of_subset (hr ▸ List.nil_subset _) (hw ▸ List.nil_subset _)
  have h₀ : ReachIn SampleDeletes (DeleteInit (pathStore watchedDigest))
      (NoLateInsert (pathStore watchedDigest)) ⟨pathStore watchedDigest, triggerAndDelete⟩ :=
    .init (init_triggerAndDelete watchedDigest)
  -- the pass loads the watch, its head and the bound of its feed
  have h₁ := h₀.next 0 (.pass (.pass (.trigger nofun step_start))) rfl rfl (same rfl rfl)
  have h₂ := h₁.again (.pass (.pass (.trigger nofun step_head))) (same rfl rfl)
  have h₃ := h₂.again (.pass (.pass (.trigger nofun .feeds))) (same rfl rfl)
  have h₄ := h₃.again (.pass (.pass (.trigger nofun step_bound))) (same rfl rfl)
  have h₅ := reach_deleted (w := boundRead) h₄ rfl List.mem_cons_self rfl
  -- the rest of the pass
  have h₆ := h₅.reach.next 0 (.pass (.pass (.trigger nofun hopen))) rfl rfl
  have h₇ := h₆.again (.pass (.pass (.trigger nofun hpage)))
  have h₈ := h₇.again (.pass (.pass (.trigger nofun hchunk)))
  -- the watermark's row is gone with the watch
  have h₉ := h₈.again (.pass (.pass (.trigger nofun .crash)))
  refine ⟨_, h₉, List.mem_cons_self, fun p => ?_, ⟨_, List.mem_cons_self, rfl, rfl⟩,
    ⟨_, List.mem_cons_self, rfl, by decide⟩⟩
  match p with
  | 0 | 1 => rfl
  | _ + 2 => trivial

end Sample

end OpenMagpie
