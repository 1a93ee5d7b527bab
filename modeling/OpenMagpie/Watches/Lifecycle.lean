import Mathlib.Algebra.BigOperators.Group.List.Lemmas
import Mathlib.Algebra.GroupWithZero.Nat
import Mathlib.Data.List.Dedup
import OpenMagpie.Watches.Runs

/-!
# The lifecycle of a run

Any sequence of the operations on the run table keeps the rule of `completed_at`, which every
operation encodes its own way: `complete` by `completionTs`, the reaper by a partition on the
attempts, `fail_batch` by its exhaust update, `complete_batch` by stamping every row.

* `RunOp`, `RunOp.apply`, `runsAfter`: the operations and their runs from the empty table.
* `Coherent`: the rule for one row; **`RunOp.coherent_apply`**: every operation keeps it.
* `summaryForAction`: the activity summary.
* **`coherent_and_summary`**: the rule holds after every sequence of operations, and the buckets of
  a summary over all completion times are a partition of the action's runs.
-/

set_option autoImplicit false

namespace OpenMagpie

open WatchActionRunState Batched

/-! ## The operations -/

/-- One call of a run-table operation. A claim takes its candidate from `_due_runs`, which yields
claimable states only. `complete_batch` marks its rows terminal, and its callers pass no `FAILED` result:
the flush hands a failed batch to `fail_batch`. -/
inductive RunOp
  | enqueue (id account watch action : Id) (kind : String) (item : Id) (scheduledAt : Time)
      (prior : Option Id)
  | enqueueMany (mint : Id → Id) (account watch action : Id) (kind : String) (scheduledAt : Time)
      (items : List Id)
  | enqueueAdvanceBatch (mint : Id → Id) (account action : Id) (kind : String) (scheduledAt : Time)
      (rows : List (Id × Id × Id))
  | claimDue (candidate : WatchActionRun) (h : candidate.state ∈ claimableStates) (ts : Time)
  | complete (run : WatchActionRun) (res : ActionResult) (deliveryId : Option Id)
      (kind : Option String) (now : Time)
  | reapStale (ts : Time)
  | completeBatch (account : Id) (ids : List Id) (res : ActionResult) (h : res.state ≠ failed)
      (deliveryId : Option Id) (kind : Option String) (now : Time)
  | failBatch (account : Id) (ids : List Id) (now : Time)
  | deleteTerminalForAction (account watch action : Id) (items : List Id)

variable (S : Settings)

/-- What an operation makes of the table. -/
def RunOp.apply (runs : List WatchActionRun) : RunOp → List WatchActionRun
  | .enqueue id account watch action kind item t prior =>
    (OpenMagpie.enqueue id account watch action kind item t prior runs).1
  | .enqueueMany mint account watch action kind t items =>
    match OpenMagpie.enqueueMany mint account watch action kind t items runs with
    | .ok (runs', _) => runs'
    | .error _ => runs
  | .enqueueAdvanceBatch mint account action kind t rows =>
    OpenMagpie.enqueueAdvanceBatch mint account action kind t rows runs
  | .claimDue candidate _ ts => claimRun S candidate ts runs
  | .complete run res d k now => OpenMagpie.complete S run res d k now runs
  | .reapStale ts => OpenMagpie.reapStale S ts runs
  | .completeBatch account ids res _ d k now =>
    OpenMagpie.completeBatch account ids res d k now runs
  | .failBatch account ids now => OpenMagpie.failBatch S account ids now runs
  | .deleteTerminalForAction account watch action items =>
    OpenMagpie.deleteTerminalForAction account watch action items runs

/-- The table after a sequence of operations. -/
def runsAfter (ops : List RunOp) : List WatchActionRun := ops.foldl (RunOp.apply S) []

/-! ## The rule of `completed_at` -/

/-- The rule for one row: completed means clean or failed for good, and a pending run has an
attempt left. -/
structure Coherent (r : WatchActionRun) : Prop where
  completed : r.completedAt.isSome ↔
    r.state ∈ terminalStates ∨ (r.state = failed ∧ S.watchRunMaxAttempts ≤ r.attempts)
  pending : r.state = pending → r.attempts < S.watchRunMaxAttempts

variable {S}

theorem coherent_newRun (id account watch action : Id) (kind : String) (item : Id) (t : Time)
    (prior : Option Id) : Coherent S (newRun id account watch action kind item t prior) :=
  ⟨by simp [newRun, terminalStates], fun _ => S.maxAttempts_pos⟩

/-- A claimed run was pending or failed with an attempt left, so it had not completed. -/
theorem Coherent.claimedRow {r run : WatchActionRun} {ts : Time} (h : Coherent S r)
    (hc : run.state ∈ claimableStates) (hg : claimGuard S run r = true) :
    Coherent S (claimedRow ts r) := by
  obtain ⟨-, hs, ha⟩ := claimGuard_iff.mp hg
  refine ⟨?_, fun hp => by simp [OpenMagpie.claimedRow] at hp⟩
  have hn : ¬ r.completedAt.isSome := by
    rw [h.completed, hs]
    simp only [claimableStates, List.mem_cons, List.not_mem_nil, or_false] at hc
    rcases hc with hc | hc
    · simp [hc, terminalStates]
    · simpa [hc, terminalStates] using ha
  simpa [OpenMagpie.claimedRow, terminalStates] using hn

/-- `complete` stamps the row by the rule, at the attempts its guard matched. -/
theorem Coherent.complete {r run : WatchActionRun} {res : ActionResult} {now : Time}
    {d : Option Id} {k : Option String} (hg : completeGuard run r = true) :
    Coherent S (completedRow res (completionTs S res.state run.attempts now) d k r) := by
  obtain ⟨-, -, ha⟩ := completeGuard_iff.mp hg
  refine ⟨?_, fun hp => absurd hp (ne_pending_of_outcome res.isOutcome)⟩
  simp [completedRow, completionTs_isSome, ha]

/-- The reaper's two updates partition the stale runs on the attempts. -/
theorem coherent_reapStale {runs : List WatchActionRun} (ts : Time)
    (h : ∀ r ∈ runs, Coherent S r) : ∀ r ∈ reapStale S ts runs, Coherent S r := by
  have he : ∀ r ∈ reapExhausted S ts runs, Coherent S r := by
    refine Table.forall_update (fun r _ hp => ?_) fun r hr _ => h r hr
    have ha : S.watchRunMaxAttempts ≤ r.attempts := (of_decide_eq_true hp).2
    exact ⟨by simp [reapedExhausted, ha], by simp [reapedExhausted]⟩
  refine Table.forall_update (fun r _ hp => ?_) fun r hr _ => he r hr
  have ha : r.attempts < S.watchRunMaxAttempts := (of_decide_eq_true hp).2
  exact ⟨by simp [reapedRetryable, terminalStates]; omega, by simp [reapedRetryable]⟩

/-- The flush completes a batch with a clean state only. -/
theorem Coherent.completeBatch {r : WatchActionRun} {res : ActionResult} {now : Time}
    {d : Option Id} {k : Option String} (hf : res.state ≠ failed) :
    Coherent S (completedRow res (some now) d k r) := by
  refine ⟨?_, fun hp => absurd hp (ne_pending_of_outcome res.isOutcome)⟩
  have := (failed_or_terminal res.isOutcome).resolve_left hf
  simp [completedRow, this]

/-- A chunk of `fail_batch` moves out every row whose burned attempt was its last. -/
theorem coherent_failChunk {account : Id} {now : Time} {chunk : List Id}
    {runs : List WatchActionRun} (h : ∀ r ∈ runs, Coherent S r) :
    ∀ r ∈ failChunk S account now runs chunk, Coherent S r := by
  intro x hx
  obtain ⟨y, hy, rfl⟩ := Table.mem_update.mp hx
  obtain ⟨r, hr, rfl⟩ := Table.mem_update.mp hy
  cases hg : batchGuard account chunk r with
  | false => simpa [hg] using h r hr
  | true =>
    obtain ⟨hi, hacc, hp⟩ := batchGuard_iff.mp hg
    have hn : r.completedAt = none := by
      rw [← Option.not_isSome_iff_eq_none, (h r hr).completed, hp]
      simp [terminalStates]
    have hb : batchGuard account chunk (burnedRow r) = true := batchGuard_iff.mpr ⟨hi, hacc, hp⟩
    simp only [if_true, hb, Bool.true_and]
    by_cases hm : S.watchRunMaxAttempts ≤ (burnedRow r).attempts
    · rw [if_pos (by simpa using hm)]
      exact ⟨by simp [exhaustedRow, hm], by simp [exhaustedRow]⟩
    · rw [if_neg (by simpa using hm)]
      exact ⟨by simp [burnedRow, hn, hp, terminalStates], fun _ => Nat.lt_of_not_le hm⟩

/-- **Every operation keeps the rule.** -/
theorem RunOp.coherent_apply (op : RunOp) {runs : List WatchActionRun}
    (h : ∀ r ∈ runs, Coherent S r) : ∀ r ∈ op.apply S runs, Coherent S r := by
  cases op with
  | enqueue id account watch action kind item t prior =>
    simp only [RunOp.apply, OpenMagpie.enqueue]
    split_ifs
    · exact h
    · intro r hr
      rcases List.mem_append.mp hr with hr | hr
      · exact h r hr
      · obtain rfl := List.mem_singleton.mp hr
        exact coherent_newRun ..
  | enqueueMany mint account watch action kind t items =>
    obtain ⟨runs', n, he, hi⟩ := enqueueMany_inserted mint account watch action kind t runs items
    simp only [RunOp.apply, he]
    intro r hr
    rcases hi.new r hr with hr | ⟨hr, -⟩
    · exact h r hr
    · obtain ⟨item, -, rfl⟩ := List.mem_map.mp hr
      exact coherent_newRun ..
  | enqueueAdvanceBatch mint account action kind t rows =>
    intro r hr
    rcases Table.mem_bulkInsert hr with hr | ⟨hr, -⟩
    · exact h r hr
    · obtain ⟨row, -, rfl⟩ := List.mem_map.mp hr
      exact coherent_newRun ..
  | claimDue candidate hc ts =>
    exact Table.forall_update (fun r hr hg => (h r hr).claimedRow hc hg) fun r hr _ => h r hr
  | complete run res d k now =>
    exact Table.forall_update (fun _ _ hg => .complete hg) fun r hr _ => h r hr
  | reapStale ts => exact coherent_reapStale ts h
  | completeBatch account ids res hf d k now =>
    simp only [RunOp.apply, completeBatch_eq_update]
    exact Table.forall_update (fun _ _ _ => .completeBatch hf) fun r hr _ => h r hr
  | failBatch account ids now =>
    simp only [RunOp.apply, OpenMagpie.failBatch]
    generalize batched idInChunk ids = chunks
    induction chunks generalizing runs with
    | nil => exact h
    | cons chunk chunks ih => exact ih (coherent_failChunk h)
  | deleteTerminalForAction account watch action items =>
    exact fun r hr => h r (List.mem_of_mem_filter hr)

/-- The rule after any sequence of operations. -/
theorem coherent_runsAfter (ops : List RunOp) : ∀ r ∈ runsAfter S ops, Coherent S r := by
  unfold runsAfter
  have h0 : ∀ r ∈ ([] : List WatchActionRun), Coherent S r := by simp
  generalize ([] : List WatchActionRun) = runs at h0
  induction ops generalizing runs with
  | nil => exact h0
  | cons op ops ih => exact ih _ (op.coherent_apply h0)

/-! ## The activity summary -/

/-- The result of `summary_for_action`. -/
structure ActivitySummary where
  evaluated : List (WatchActionRunState × ℕ)
  pending : ℕ
  running : ℕ
  retrying : ℕ

/-- Judged in `[since, until)`. -/
def IsEvaluated (since : Time) (until_ : Option Time) (r : WatchActionRun) : Prop :=
  ∃ t ∈ r.completedAt, since ≤ t ∧ ∀ u ∈ until_, t < u

instance (since : Time) (until_ : Option Time) (r : WatchActionRun) :
    Decidable (IsEvaluated since until_ r) := by
  unfold IsEvaluated; infer_instance

/-- Failed, to be claimed again. -/
def IsRetrying (r : WatchActionRun) : Prop := r.state = failed ∧ r.completedAt = none

instance (r : WatchActionRun) : Decidable (IsRetrying r) := by
  unfold IsRetrying; infer_instance

/-- The runs of an action. -/
def runsOf (account action : Id) (runs : List WatchActionRun) : List WatchActionRun :=
  runs.filter fun r => decide (r.accountId = account ∧ r.actionId = action)

/-- `summary_for_action`: the runs judged in the window, by state, and the current backlog. -/
def summaryForAction (account action : Id) (since : Time) (until_ : Option Time)
    (runs : List WatchActionRun) : ActivitySummary :=
  let base := runsOf account action runs
  let states := (base.filter fun r => decide (IsEvaluated since until_ r)).map (·.state)
  { evaluated := states.dedup.map fun s => (s, states.count s)
    pending := base.countP fun r => decide (r.state = pending)
    running := base.countP fun r => decide (r.state = running)
    retrying := base.countP fun r => decide (IsRetrying r) }

/-- The buckets of a summary. -/
inductive Bucket
  | evaluated (s : WatchActionRunState)
  | pending
  | running
  | retrying

/-- The runs a bucket counts. -/
def Bucket.Counts (since : Time) (until_ : Option Time) (r : WatchActionRun) : Bucket → Prop
  | .evaluated s => IsEvaluated since until_ r ∧ r.state = s
  | .pending => r.state = WatchActionRunState.pending
  | .running => r.state = WatchActionRunState.running
  | .retrying => IsRetrying r

instance (since : Time) (until_ : Option Time) (r : WatchActionRun) (b : Bucket) :
    Decidable (b.Counts since until_ r) := by
  cases b <;> unfold Bucket.Counts <;> infer_instance

/-- What a summary shows of a bucket; a state that no judged run has is not listed. -/
def ActivitySummary.count (a : ActivitySummary) : Bucket → ℕ
  | .evaluated s => (a.evaluated.lookup s).getD 0
  | .pending => a.pending
  | .running => a.running
  | .retrying => a.retrying

/-- The total of a summary. -/
def ActivitySummary.total (a : ActivitySummary) : ℕ :=
  (a.evaluated.map (·.2)).sum + a.pending + a.running + a.retrying

theorem lookup_evaluated (l : List WatchActionRunState) (s : WatchActionRunState) :
    ((l.dedup.map fun s => (s, l.count s)).lookup s).getD 0 = l.count s := by
  by_cases hs : s ∈ l
  · rw [List.lookup_graph l.count (List.mem_dedup.mpr hs)]
    rfl
  · have hnone : (l.dedup.map fun s => (s, l.count s)).lookup s = none := by
      rw [List.lookup_eq_none_iff]
      intro p hp
      obtain ⟨t, ht, rfl⟩ := List.mem_map.mp hp
      rw [bne_iff_ne]
      rintro rfl
      exact hs (List.mem_dedup.mp ht)
    rw [hnone, List.count_eq_zero.mpr hs]
    rfl

/-- **Each count of a summary is the number of the action's runs that its bucket counts.** -/
theorem count_summaryForAction (account action : Id) (since : Time) (until_ : Option Time)
    (runs : List WatchActionRun) (b : Bucket) :
    (summaryForAction account action since until_ runs).count b =
      (runsOf account action runs).countP fun r => decide (b.Counts since until_ r) := by
  cases b with
  | evaluated s =>
    rw [ActivitySummary.count, summaryForAction, lookup_evaluated, List.count_eq_countP,
      List.countP_map, List.countP_filter]
    refine List.countP_congr fun r _ => ?_
    simp [Bucket.Counts, and_comm]
  | pending => rfl
  | running => rfl
  | retrying => rfl

/-- A window that covers every completion time. -/
def Covers (since : Time) (until_ : Option Time) (runs : List WatchActionRun) : Prop :=
  ∀ r ∈ runs, ∀ t ∈ r.completedAt, since ≤ t ∧ ∀ u ∈ until_, t < u

theorem isEvaluated_iff {since : Time} {until_ : Option Time} {runs : List WatchActionRun}
    (hw : Covers since until_ runs) {r : WatchActionRun} (hr : r ∈ runs) :
    IsEvaluated since until_ r ↔ r.completedAt.isSome := by
  rw [Option.isSome_iff_exists]
  exact ⟨fun ⟨t, ht, _⟩ => ⟨t, ht⟩, fun ⟨t, ht⟩ => ⟨t, ht, hw r hr t ht⟩⟩

/-- **A coherent run is in exactly one bucket.** -/
theorem Coherent.existsUnique_bucket {since : Time} {until_ : Option Time} {r : WatchActionRun}
    (h : Coherent S r) (he : IsEvaluated since until_ r ↔ r.completedAt.isSome) :
    ∃! b : Bucket, b.Counts since until_ r := by
  have hc := h.completed
  rcases mem_terminalStates_or r.state with hs | hs | hs | hs
  · refine ⟨.pending, hs, ?_⟩
    rintro (s | _ | _ | _) hb <;> simp_all [Bucket.Counts, IsRetrying, terminalStates]
  · refine ⟨.running, hs, ?_⟩
    rintro (s | _ | _ | _) hb <;> simp_all [Bucket.Counts, IsRetrying, terminalStates]
  · cases hd : r.completedAt with
    | none =>
      refine ⟨.retrying, ⟨hs, hd⟩, ?_⟩
      rintro (s | _ | _ | _) hb <;> simp_all [Bucket.Counts, IsRetrying]
    | some t =>
      refine ⟨.evaluated failed, ⟨he.mpr (by simp [hd]), hs⟩, ?_⟩
      rintro (s | _ | _ | _) hb <;> simp_all [Bucket.Counts, IsRetrying]
  · refine ⟨.evaluated r.state, ⟨he.mpr (hc.mpr (.inl hs)), rfl⟩, ?_⟩
    rintro (s | _ | _ | _) hb
    · simp [hb.2]
    all_goals
      simp only [Bucket.Counts, IsRetrying] at hb
      simp_all [terminalStates]

/-- Four conditions of which every element meets exactly one count the list. -/
theorem countP_four {α : Type*} (p q r s : α → Bool) {l : List α}
    (h : ∀ x ∈ l, (if p x then 1 else 0) + (if q x then 1 else 0) + (if r x then 1 else 0) +
      (if s x then 1 else 0) = 1) :
    l.countP p + l.countP q + l.countP r + l.countP s = l.length := by
  induction l with
  | nil => rfl
  | cons x l ih =>
    have hx := h x List.mem_cons_self
    have hl := ih fun y hy => h y (List.mem_cons_of_mem _ hy)
    simp only [List.countP_cons, List.length_cons]
    omega

theorem sum_evaluated (l : List WatchActionRunState) :
    ((l.dedup.map fun s => (s, l.count s)).map (·.2)).sum = l.length := by
  rw [List.map_map]
  exact List.sum_map_count_dedup_eq_length l

/-- **The counts of a summary over all completion times add up.** -/
theorem total_summaryForAction {since : Time} {until_ : Option Time} {runs : List WatchActionRun}
    (h : ∀ r ∈ runs, Coherent S r) (hw : Covers since until_ runs) (account action : Id) :
    (summaryForAction account action since until_ runs).total =
      (runsOf account action runs).length := by
  rw [← countP_four (fun r => decide (IsEvaluated since until_ r))
    (fun r => decide (r.state = pending)) (fun r => decide (r.state = running))
    (fun r => decide (IsRetrying r))]
  · simp only [ActivitySummary.total, summaryForAction, sum_evaluated, List.length_map,
      List.countP_eq_length_filter]
  · intro r hr
    have hm := List.mem_of_mem_filter hr
    have hc := (h r hm).completed
    have he := isEvaluated_iff hw hm
    rcases mem_terminalStates_or r.state with hs | hs | hs | hs
    · simp_all [IsRetrying, terminalStates]
    · simp_all [IsRetrying, terminalStates]
    · cases hd : r.completedAt <;> simp_all [IsRetrying]
    · have hn : r.state ≠ pending ∧ r.state ≠ running ∧ r.state ≠ failed := by
        refine ⟨?_, ?_, ?_⟩ <;> intro e <;> simp [e, terminalStates] at hs
      simp_all [IsRetrying]

/-- **The lifecycle of a run.** After any sequence of operations a run has completed exactly when
it rests at a clean state or failed for good, a pending run has an attempt left, and a summary over
all completion times counts every run of its action, each in exactly one bucket. -/
theorem coherent_and_summary (ops : List RunOp) :
    (∀ r ∈ runsAfter S ops, (r.completedAt.isSome ↔
      r.state ∈ terminalStates ∨ (r.state = failed ∧ S.watchRunMaxAttempts ≤ r.attempts))) ∧
    (∀ r ∈ runsAfter S ops, r.state = pending → r.attempts < S.watchRunMaxAttempts) ∧
    ∀ (since : Time) (until_ : Option Time), Covers since until_ (runsAfter S ops) →
      (∀ r ∈ runsAfter S ops, ∃! b : Bucket, b.Counts since until_ r) ∧
      ∀ account action, (summaryForAction account action since until_ (runsAfter S ops)).total =
        (runsOf account action (runsAfter S ops)).length := by
  have h := coherent_runsAfter (S := S) ops
  refine ⟨fun r hr => (h r hr).completed, fun r hr => (h r hr).pending, fun since until_ hw => ?_⟩
  exact ⟨fun r hr => (h r hr).existsUnique_bucket (isEvaluated_iff hw hr),
    total_summaryForAction h hw⟩

end OpenMagpie
