import OpenMagpie.Lib.Trace
import OpenMagpie.Watches.RunWire
import OpenMagpie.Watches.System

/-!
# The impls that steps run

An impl runs on a drain worker's step from the loaded action to the outcome, and on a flush's step
from the slice to its settlement.

* `RegisteredExecutors`: the executors, under kinds that their registry lets in.
* `Thread.dispatch`, `dispatchOf`: the impl that a step runs and the runs in its input.
* `Thread.stores`, `storedOf`: the runs whose result column a step writes.
-/

set_option autoImplicit false

namespace OpenMagpie

open Interleave

/-- The executors of a deployment: the built-in ones, and plugins under kinds of their own. -/
structure RegisteredExecutors extends Executors where
  hasImpl_kind : ∀ kind, hasImpl kind = true → kind ∈ builtinKinds ∨ IsPluginKind kind

theorem RegisteredExecutors.ne_blank (E : RegisteredExecutors) {kind : String}
    (h : E.hasImpl kind = true) : kind ≠ "" := by
  rintro rfl
  rcases E.hasImpl_kind "" h with h | h
  · revert h
    decide
  · exact absurd h.1 (by decide)

/-- One run of an impl: its kind, and the runs in its input. -/
structure Dispatch where
  kind : String
  runs : List Id

/-- The impl that a step runs. -/
def Thread.dispatch (E : Executors) (t : Thread) (w : World) (t' : Thread) : Option Dispatch :=
  match t, t' with
  | .drain (.resolved h (some a)), .drain (.judged ..) =>
    if HasItem w.items h.run ∧ E.hasImpl a.kind = true then some ⟨a.kind, [h.run.id]⟩ else none
  | .flush (.emitting s a), .flush (.settling ..) => some ⟨a.kind, s.ids⟩
  | _, _ => none

/-- Impls run on steps to an outcome only. -/
theorem Thread.dispatch_ne_some {E : Executors} {t t' : Thread} {w : World} {d : Dispatch}
    (hd : ∀ h action res delivery, t' ≠ .drain (.judged h action res delivery))
    (hf : ∀ s x, t' ≠ .flush (.settling s x)) : t.dispatch E w t' ≠ some d := by
  unfold Thread.dispatch
  split
  · exact absurd rfl (hd _ _ _ _)
  · exact absurd rfl (hf _ _)
  · exact nofun

/-- The impl that a step of a run runs. -/
def dispatchOf (E : Executors) (m : Move World Thread) : Option Dispatch :=
  m.prev.dispatch E m.before.shared m.next

/-- The runs that a guard selects. -/
def selected (p : WatchActionRun → Bool) (runs : List WatchActionRun) : List Id :=
  (runs.filter p).map (·.id)

/-- The runs whose result column a step writes. -/
def Thread.stores (t : Thread) (w : World) (t' : Thread) : List Id :=
  match t, t' with
  | .drain (.advancing h ..), .drain (.started _) => selected (completeGuard h.run) w.runs
  | .flush (.gathered s), .flush (.settling ..) =>
    selected (batchGuard s.window.accountId s.ids) w.runs
  | .flush (.fetched s _ gone), .flush (.settling ..)
  | .flush (.fetched s _ gone), .flush (.emitting ..) =>
    selected (batchGuard s.window.accountId gone) w.runs
  | .flush (.closing s (.complete ..) ..), .flush (.due ..)
  | .flush (.closing s (.complete ..) ..), .flush (.started _) =>
    selected (batchGuard s.window.accountId s.ids) w.runs
  | _, _ => []

/-- The runs whose result column a step of a run writes. -/
def storedOf (m : Move World Thread) : List Id := m.prev.stores m.before.shared m.next

/-- An updated table, under the ids that the update wrote and those it left. -/
theorem mem_update_selected {runs : List WatchActionRun} (hu : IdUnique runs)
    {p : WatchActionRun → Bool} {f : WatchActionRun → WatchActionRun} (hid : ∀ r, (f r).id = r.id)
    {r' : WatchActionRun} (h : r' ∈ Table.update p f runs) :
    (r'.id ∈ selected p runs ∧ ∃ r ∈ runs, p r = true ∧ r' = f r) ∨
      (r'.id ∉ selected p runs ∧ r' ∈ runs) := by
  obtain ⟨r, hr, rfl⟩ := Table.mem_update.mp h
  split_ifs with hp
  · refine .inl ⟨?_, r, hr, hp, rfl⟩
    rw [hid]
    exact List.mem_map_of_mem (List.mem_filter.mpr ⟨hr, hp⟩)
  · refine .inr ⟨fun hs => hp ?_, hr⟩
    obtain ⟨x, hx, he⟩ := List.mem_map.mp hs
    obtain ⟨hx, hpx⟩ := List.mem_filter.mp hx
    exact hu x hx r hr he ▸ hpx

end OpenMagpie
