import Mathlib.Data.List.Sort
import OpenMagpie.Lib.Table
import OpenMagpie.Watches.Runs

/-!
# Digest windows

The window table: one row per account and action, whose `closeAt` is set while a window is open.

* `openWindow`: an open window for an action, and its close time.
* `closeIfDrained`: close the window when no pending run is left.
* `clearDigestWindows`: the delete of an edit.
* `iterDue`: the flush's worklist.
* **`closeAt_of_mem_openWindow`**, `mem_openWindow`, `mem_closeWindow`, `mem_clearDigestWindows`:
  the rows each of them leaves.
-/

set_option autoImplicit false

namespace OpenMagpie

/-- `open_window`: get or create the row of the action, open it when no window is open; the table
and the close time. -/
def openWindow (account action : Id) (intervalSeconds : ℕ) (now : Time)
    (windows : List WatchActionDigestWindow) : List WatchActionDigestWindow × Time :=
  let windows := Table.insertIgnore WatchActionDigestWindow.key windows ⟨account, action, none⟩
  let windows := Table.update (fun w => decide (w.key = (account, action) ∧ w.closeAt = none))
    (fun w => { w with closeAt := some (now + intervalSeconds) }) windows
  (windows, ((windows.find? fun w => decide (w.key = (account, action))).bind (·.closeAt)).getD
    (now + intervalSeconds))

/-- The window row of an action closed. -/
def closeWindow (account action : Id) (windows : List WatchActionDigestWindow) :
    List WatchActionDigestWindow :=
  Table.update (fun w => decide (w.key = (account, action))) (fun w => { w with closeAt := none })
    windows

/-- No pending run of the action is left. -/
def IsDrained (account action : Id) (runs : List WatchActionRun) : Prop :=
  ∀ r ∈ runs, ¬ IsPendingOf account action r

instance (account action : Id) (runs : List WatchActionRun) :
    Decidable (IsDrained account action runs) := by
  unfold IsDrained; infer_instance

/-- `close_if_drained`: the table, and whether the window is drained. A row that is gone counts as
drained. -/
def closeIfDrained (account action : Id) (runs : List WatchActionRun)
    (windows : List WatchActionDigestWindow) : List WatchActionDigestWindow × Bool :=
  if hasWindow windows account action then
    if IsDrained account action runs then (closeWindow account action windows, true)
    else (windows, false)
  else (windows, true)

/-- `_clear_digest_windows`. -/
def clearDigestWindows (account : Id) (actions : List Id)
    (windows : List WatchActionDigestWindow) : List WatchActionDigestWindow :=
  windows.filter fun w => ! decide (w.accountId = account ∧ w.actionId ∈ actions)

/-- Earlier close times first. -/
def closeLe (w w' : WatchActionDigestWindow) : Prop := ∀ t ∈ w.closeAt, ∀ t' ∈ w'.closeAt, t ≤ t'

instance : DecidableRel closeLe := fun _ _ => by unfold closeLe; infer_instance

/-- `iter_due`: the open windows whose close time has elapsed. -/
def iterDue (ts : Time) (windows : List WatchActionDigestWindow) : List WatchActionDigestWindow :=
  (windows.filter fun w => decide (∃ t ∈ w.closeAt, t ≤ ts)).insertionSort closeLe

/-! ## The rows they leave -/

variable {account action : Id} {n : ℕ} {now : Time} {windows : List WatchActionDigestWindow}
  {w : WatchActionDigestWindow}

theorem mem_iterDue {ts : Time} : w ∈ iterDue ts windows ↔ w ∈ windows ∧ ∃ t ∈ w.closeAt, t ≤ ts := by
  rw [iterDue, List.mem_insertionSort, List.mem_filter, decide_eq_true_iff]

/-- **An opened window is open.** -/
theorem closeAt_of_mem_openWindow (hw : w ∈ (openWindow account action n now windows).1)
    (hk : w.key = (account, action)) : w.closeAt ≠ none := by
  obtain ⟨v, _, rfl⟩ := Table.mem_update.mp hw
  split_ifs at hk ⊢ with hv
  · simp
  · exact fun h => hv (by simp [hk, h])

/-- Opening a window leaves the other rows, and rows of the action. -/
theorem mem_openWindow (hw : w ∈ (openWindow account action n now windows).1) :
    w ∈ windows ∨ w.key = (account, action) := by
  obtain ⟨v, hv, rfl⟩ := Table.mem_update.mp hw
  split_ifs with hc
  · exact .inr (of_decide_eq_true hc).1
  · simp only [Table.insertIgnore] at hv
    split_ifs at hv
    · exact .inl hv
    · rcases List.mem_append.mp hv with hv | hv
      · exact .inl hv
      · obtain rfl := List.mem_singleton.mp hv
        exact .inr rfl

/-- The keys after opening a window: the old ones and the action's. -/
theorem mem_keys_openWindow {k : WindowKey} :
    k ∈ (openWindow account action n now windows).1.map WatchActionDigestWindow.key ↔
      k = (account, action) ∨ k ∈ windows.map WatchActionDigestWindow.key := by
  have hm : (openWindow account action n now windows).1.map WatchActionDigestWindow.key =
      (Table.insertIgnore WatchActionDigestWindow.key windows ⟨account, action, none⟩).map
        WatchActionDigestWindow.key :=
    Table.map_update _ fun _ _ => rfl
  rw [hm, Table.insertIgnore]
  split_ifs with h
  · exact ⟨.inr, fun hk => hk.elim (fun e => e ▸ h) id⟩
  · simp [or_comm, WatchActionDigestWindow.key]

theorem keys_closeWindow : (closeWindow account action windows).map WatchActionDigestWindow.key =
    windows.map WatchActionDigestWindow.key :=
  Table.map_update _ fun _ _ => rfl

theorem keys_closeIfDrained {runs : List WatchActionRun} :
    (closeIfDrained account action runs windows).1.map WatchActionDigestWindow.key =
      windows.map WatchActionDigestWindow.key := by
  unfold closeIfDrained
  split_ifs
  · exact keys_closeWindow
  · rfl
  · rfl

/-- Closing a window leaves the rows of other actions. -/
theorem mem_closeWindow (hw : w ∈ closeWindow account action windows) :
    w ∈ windows ∨ (w.key = (account, action) ∧ w.closeAt = none) := by
  obtain ⟨v, hv, rfl⟩ := Table.mem_update.mp hw
  split_ifs with hc
  · exact .inr ⟨of_decide_eq_true hc, rfl⟩
  · exact .inl hv

theorem mem_clearDigestWindows {actions : List Id} : w ∈ clearDigestWindows account actions windows ↔
    w ∈ windows ∧ ¬ (w.accountId = account ∧ w.actionId ∈ actions) := by
  rw [clearDigestWindows, List.mem_filter, Bool.not_eq_true', decide_eq_false_iff_not]

end OpenMagpie
