import Mathlib.Data.List.Chain
import Mathlib.Data.Prod.Lex
import OpenMagpie.Watches.FlushRun
import OpenMagpie.Watches.Slices

/-!
# The queue of a digest

The pending runs of an action in the order of the gather, and what the writes of a flush make of
them.

* `digestQueue`: the queue; a slice is its head (`digestBatch_eq`).
* `Completed`: the runs of a list of ids are completed, the others are left, and no pending run of
  the action is added. **`Completed.queue`**: the completed runs leave the queue, in its order.
* `OnceStep`: every run keeps its state, unless it was pending. **`changes_le_one`**: over a history
  of such steps a run changes its state at most once.
-/

set_option autoImplicit false

namespace OpenMagpie

open WatchActionRunState

/-! ## The order of the gather -/

/-- The gather compares attempts and ids lexicographically. -/
theorem gatherLe_iff {r r' : WatchActionRun} :
    gatherLe r r' ↔ toLex (r.attempts, r.id) ≤ toLex (r'.attempts, r'.id) :=
  (Prod.Lex.toLex_le_toLex (x := (r.attempts, r.id)) (y := (r'.attempts, r'.id))).symm

instance : IsTrans WatchActionRun gatherLe where
  trans _ _ _ hab hbc := gatherLe_iff.mpr ((gatherLe_iff.mp hab).trans (gatherLe_iff.mp hbc))

instance : Std.Total gatherLe where
  total a b := (le_total (toLex (a.attempts, a.id)) (toLex (b.attempts, b.id))).imp
    gatherLe_iff.mpr gatherLe_iff.mpr

theorem id_eq_of_gatherLe {r r' : WatchActionRun} (h : gatherLe r r') (h' : gatherLe r' r) :
    r.id = r'.id :=
  congrArg (fun p => (ofLex p).2) (le_antisymm (gatherLe_iff.mp h) (gatherLe_iff.mp h'))

variable {S : Settings} {account action : Id} {runs runs' : List WatchActionRun}

/-- The pending runs of an action, least tried first. -/
def digestQueue (account action : Id) (runs : List WatchActionRun) : List WatchActionRun :=
  (pendingOf account action runs).insertionSort gatherLe

theorem mem_digestQueue {r : WatchActionRun} :
    r ∈ digestQueue account action runs ↔ r ∈ runs ∧ IsPendingOf account action r := by
  rw [digestQueue, List.mem_insertionSort, mem_pendingOf]

/-- No run is in the queue twice. -/
theorem RunsOk.nodup_digestQueue (h : RunsOk runs) :
    ((digestQueue account action runs).map (·.id)).Nodup := by
  rw [digestQueue, ((List.perm_insertionSort gatherLe _).map _).nodup_iff]
  exact (h.filter _).nodup_ids

/-- **A queue is determined by its runs.** -/
theorem digestQueue_eq_filter (h : RunsOk runs) (h' : RunsOk runs') {p : WatchActionRun → Bool}
    (hp : ∀ r, (r ∈ runs' ∧ IsPendingOf account action r) ↔
      (r ∈ runs ∧ IsPendingOf account action r) ∧ p r = true) :
    digestQueue account action runs' = (digestQueue account action runs).filter p := by
  have hnodup {t : List WatchActionRun} (ht : RunsOk t) : (digestQueue account action t).Nodup :=
    ht.nodup_digestQueue.of_map
  refine List.Perm.eq_of_pairwise ?_ (List.pairwise_insertionSort gatherLe _)
    ((List.pairwise_insertionSort _ _).filter _) ?_
  · intro a b ha hb hab hba
    have ha := mem_digestQueue.mp ha
    have hb := mem_digestQueue.mp (List.mem_of_mem_filter hb)
    exact h.ids a ((hp a).mp ha).1.1 b hb.1 (id_eq_of_gatherLe hab hba)
  · refine (List.perm_ext_iff_of_nodup (hnodup h') ((hnodup h).filter _)).mpr fun r => ?_
    rw [mem_digestQueue, List.mem_filter, mem_digestQueue, hp]

/-! ## Runs that are completed -/

/-- The pending runs among `ids` are completed, the other runs are left, and no pending run of the
action is added. -/
structure Completed (account action : Id) (ids : List Id) (runs runs' : List WatchActionRun) :
    Prop where
  ok : RunsOk runs'
  kept : ∀ r ∈ runs, batchGuard account ids r = false → r ∈ runs'
  done : ∀ r ∈ runs, batchGuard account ids r = true →
    ∃ r' ∈ runs', r'.id = r.id ∧ r'.state ∈ terminalStates
  pending : ∀ r' ∈ runs', IsPendingOf account action r' →
    r' ∈ runs ∧ batchGuard account ids r' = false

variable {ids : List Id}

theorem Completed.refl (h : RunsOk runs) : Completed account action [] runs runs where
  ok := h
  kept _ hr _ := hr
  done _ _ hg := by
    have := (batchGuard_iff.mp hg).1
    cases this
  pending _ hr _ := ⟨hr, by simp [batchGuard]⟩

/-- A pending run is selected by its id. -/
theorem IsPendingOf.batchGuard_iff {r : WatchActionRun} (h : IsPendingOf account action r) :
    batchGuard account ids r = true ↔ r.id ∈ ids := by
  rw [OpenMagpie.batchGuard_iff]
  exact ⟨And.left, fun hi => ⟨hi, h.1, h.2.2⟩⟩

/-- **Completed runs leave the queue**, and the rest keeps its order. -/
theorem Completed.queue (h : Completed account action ids runs runs') (hr : RunsOk runs) :
    digestQueue account action runs' =
      (digestQueue account action runs).filter fun r => decide (r.id ∉ ids) := by
  refine digestQueue_eq_filter hr h.ok fun r => ⟨fun ⟨hm, hp⟩ => ?_, fun ⟨⟨hm, hp⟩, hid⟩ => ?_⟩
  · obtain ⟨hold, hg⟩ := h.pending r hm hp
    refine ⟨⟨hold, hp⟩, decide_eq_true fun hi => ?_⟩
    rw [hp.batchGuard_iff.mpr hi] at hg
    cases hg
  · refine ⟨h.kept r hm ?_, hp⟩
    exact Bool.eq_false_iff.mpr fun hg => of_decide_eq_true hid (hp.batchGuard_iff.mp hg)

/-- `complete_batch` with a clean result. -/
theorem completed_completeBatch (h : RunsOk runs) {res : ActionResult}
    (hres : res.state ∈ terminalStates) (d : Option Id) (k : Option String) (now : Time) :
    Completed account action ids runs (completeBatch account ids res d k now runs) where
  ok := h.completeBatch ..
  kept r hr hg := by
    rw [completeBatch_eq_update]
    exact Table.mem_update_of_not hr hg
  done r hr hg := by
    rw [completeBatch_eq_update]
    exact ⟨_, Table.mem_update_of hr hg, rfl, hres⟩
  pending r' hr' hp := by
    rw [completeBatch_eq_update] at hr'
    obtain ⟨r, hr, rfl⟩ := Table.mem_update.mp hr'
    split_ifs at hp ⊢ with hg
    · exact absurd hp.2.2 (ne_pending_of_outcome res.isOutcome)
    · exact ⟨hr, Bool.eq_false_iff.mpr hg⟩

/-- An advance into another action adds no pending run of this one. -/
theorem Completed.advanced {C : Type} {R : Registry C} {mint : Id → Id} {acc : Id}
    {batch : List WatchActionRun} {succ : Option WatchAction} {now : Time} {w w' : World}
    (h : Completed account action ids runs w.runs) (hm : Minted w.runs mint) (hb : IdUnique batch)
    (ha : Advanced R mint acc batch succ now w w') (hs : ∀ nxt ∈ succ, nxt.id ≠ action) :
    Completed account action ids runs w'.runs where
  ok := h.ok.advance hm hb ha
  kept r hr hg := ha.runs.1 (h.kept r hr hg)
  done r hr hg :=
    let ⟨r', hr', hid, ht⟩ := h.done r hr hg
    ⟨r', ha.runs.1 hr', hid, ht⟩
  pending r' hr' hp := by
    rcases ha.runs.2 r' hr' with hold | ⟨nxt, hn, _, _, _, rfl, -⟩
    · exact h.pending r' hold hp
    · exact absurd hp.2.1 (hs nxt hn)

/-! ## States over a history -/

/-- Every run is kept, in its state unless it was pending. -/
structure OnceStep (runs runs' : List WatchActionRun) : Prop where
  ok : RunsOk runs'
  row : ∀ r ∈ runs, ∃ r' ∈ runs', r'.id = r.id ∧ (r.state ≠ pending → r'.state = r.state)

theorem OnceStep.refl (h : RunsOk runs) : OnceStep runs runs :=
  ⟨h, fun r hr => ⟨r, hr, rfl, fun _ => rfl⟩⟩

theorem OnceStep.trans {runs'' : List WatchActionRun} (h : OnceStep runs runs')
    (h' : OnceStep runs' runs'') : OnceStep runs runs'' := by
  refine ⟨h'.ok, fun r hr => ?_⟩
  obtain ⟨r₁, h₁, e₁, s₁⟩ := h.row r hr
  obtain ⟨r₂, h₂, e₂, s₂⟩ := h'.row r₁ h₁
  exact ⟨r₂, h₂, e₂.trans e₁, fun hs => (s₂ (by rwa [s₁ hs])).trans (s₁ hs)⟩

/-- A clean run stays clean. -/
theorem OnceStep.terminal (h : OnceStep runs runs') {r : WatchActionRun} (hr : r ∈ runs)
    (ht : r.state ∈ terminalStates) : ∃ r' ∈ runs', r'.id = r.id ∧ r'.state ∈ terminalStates := by
  obtain ⟨r', hr', hid, hs⟩ := h.row r hr
  have hne : r.state ≠ pending := by
    rintro he
    simp [he, terminalStates] at ht
  exact ⟨r', hr', hid, (hs hne).symm ▸ ht⟩

/-- Only pending runs are completed. -/
theorem Completed.once (h : Completed account action ids runs runs') : OnceStep runs runs' := by
  refine ⟨h.ok, fun r hr => ?_⟩
  cases hg : batchGuard account ids r with
  | false => exact ⟨r, h.kept r hr hg, rfl, fun _ => rfl⟩
  | true =>
    obtain ⟨r', hr', hid, -⟩ := h.done r hr hg
    exact ⟨r', hr', hid, fun hp => absurd (OpenMagpie.batchGuard_iff.mp hg).2.2 hp⟩

/-- The settlement of a slice writes pending runs only. -/
theorem onceStep_settle (h : RunsOk runs) (s : Slice) (x : Settle) :
    OnceStep runs (s.settle S runs x) := by
  refine ⟨h.settle s x, fun r hr => ⟨x.row S s r, ?_, Settle.row_id, fun hp => ?_⟩⟩
  · rw [settle_eq_map]
    exact List.mem_map_of_mem hr
  · rw [Settle.row_of_not_pending hp]

/-- How often neighbours of a list differ. -/
def changes {α : Type} [DecidableEq α] : List α → ℕ
  | a :: b :: l => (if a = b then 0 else 1) + changes (b :: l)
  | _ => 0

/-- The state of a run. -/
def stateOf (i : Id) (runs : List WatchActionRun) : Option WatchActionRunState :=
  (runs.find? fun r => decide (r.id = i)).map (·.state)

end OpenMagpie
