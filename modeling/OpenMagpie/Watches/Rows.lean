import OpenMagpie.Watches.Pending

/-!
# What a step writes to a run row

* `RowWrite`: the writes of one row, under the program point of the thread that makes them.
* **`System.rows`**: every row after a step is a row from before, written at most once, or a fresh
  pending row under a free key; `System.evolve`: without deletes, every row from before is there.
-/

set_option autoImplicit false

namespace OpenMagpie

open WatchActionRunState Interleave

variable {C : Type} {S : Settings} {E : Executors} {R : Registry C} {on : Component → Prop}

/-- The thread writes the row `r` to `r'`, or leaves it. -/
inductive RowWrite (S : Settings) : Thread → WatchActionRun → WatchActionRun → Prop
  | keep {t : Thread} {r : WatchActionRun} : RowWrite S t r r
  | claim {now : Time} {run r : WatchActionRun} (hg : claimGuard S run r = true) :
      RowWrite S (.drain (.candidate now run)) r (claimedRow now r)
  | complete {h : Holding} {action succ : Option WatchAction} {res : ActionResult} {d : Option Id}
      {r : WatchActionRun} (hg : completeGuard h.run r = true) :
      RowWrite S (.drain (.advancing h action res d succ)) r
        (completedRow res (completionTs S res.state h.run.attempts h.now) d (action.map (·.kind)) r)
  | exhausted {now : Time} {r : WatchActionRun} (hs : IsStale S now r)
      (ha : S.watchRunMaxAttempts ≤ r.attempts) :
      RowWrite S (.reap (.started now)) r (reapedExhausted now r)
  | retryable {now : Time} {r : WatchActionRun} (hs : IsStale S now r)
      (ha : r.attempts < S.watchRunMaxAttempts) :
      RowWrite S (.reap (.halfway now)) r (reapedRetryable r)
  | unresolvable {s : Slice} {r : WatchActionRun} (error : String)
      (hg : batchGuard s.window.accountId s.ids r = true) :
      RowWrite S (.flush (.gathered s)) r (completedRow (.defect error) (some s.now) none none r)
  | gone {s : Slice} {action : WatchAction} {gone : List Id} {r : WatchActionRun}
      (hg : batchGuard s.window.accountId gone r = true) :
      RowWrite S (.flush (.fetched s action gone)) r
        (completedRow (.defect RunMessages.itemGone) (some s.now) none none r)
  | settle {s : Slice} {x : Settle} {succ : Option WatchAction} {mint : Id → Id}
      {locked drained : Bool} {r : WatchActionRun} :
      RowWrite S (.flush (.closing s x succ mint locked drained)) r (x.row S s r)

/-- A fresh pending row. -/
def IsNewRun (r : WatchActionRun) : Prop := ∃ id account watch action kind item t prior,
  r = newRun id account watch action kind item t prior

section Row

variable {s : Slice} {x : Settle} {r : WatchActionRun}

/-- A settlement keeps the columns that its three kinds of row writes keep. -/
theorem Settle.proj_row {β : Type} (g : WatchActionRun → β)
    (hc : ∀ res ct d k r, g (completedRow res ct d k r) = g r) (hb : ∀ r, g (burnedRow r) = g r)
    (he : ∀ now r, g (exhaustedRow now r) = g r) : g (x.row S s r) = g r := by
  cases x with
  | close => rfl
  | complete action res d =>
    simp only [Settle.row]
    split_ifs
    · exact hc ..
    · rfl
  | fail =>
    simp only [Settle.row]
    generalize Batched.batched idInChunk s.ids = chunks
    induction chunks generalizing r with
    | nil => rfl
    | cons chunk chunks ih =>
      rw [List.foldl_cons, ih, failRow]
      split_ifs
      · rw [he, hb]
      · exact hb r
      · rfl

theorem Settle.row_id : (x.row S s r).id = r.id :=
  proj_row (·.id) (fun _ _ _ _ _ => rfl) (fun _ => rfl) fun _ _ => rfl

theorem Settle.row_key : (x.row S s r).key = r.key :=
  proj_row _ (fun _ _ _ _ _ => rfl) (fun _ => rfl) fun _ _ => rfl

theorem Settle.row_scheduledAt : (x.row S s r).scheduledAt = r.scheduledAt :=
  proj_row (·.scheduledAt) (fun _ _ _ _ _ => rfl) (fun _ => rfl) fun _ _ => rfl

/-- A settlement leaves the rows that are not in its slice. -/
theorem Settle.row_of_not_mem (h : r.id ∉ s.ids) : x.row S s r = r := by
  cases x with
  | close => rfl
  | complete action res d => exact if_neg fun hg => h (batchGuard_iff.mp hg).1
  | fail =>
    refine List.foldlRecOn (motive := fun r' => r' = r) _ _ rfl ?_
    rintro r' rfl chunk hc
    refine if_neg fun hg => h ?_
    exact (Batched.mem_flatten_batched (n := idInChunk) (by decide)).mp
      ⟨chunk, hc, (batchGuard_iff.mp hg).1⟩

/-- A settlement leaves the rows that are not pending. -/
theorem Settle.row_of_not_pending (h : r.state ≠ pending) : x.row S s r = r := by
  cases x with
  | close => rfl
  | complete action res d => exact if_neg fun hg => h (batchGuard_iff.mp hg).2.2
  | fail =>
    refine List.foldlRecOn (motive := fun r' => r' = r) _ _ rfl ?_
    rintro r' rfl chunk -
    exact if_neg fun hg => h (batchGuard_iff.mp hg).2.2

theorem attempts_le_failRow {account : Id} {now : Time} {chunk : List Id} :
    r.attempts ≤ (failRow S account now r chunk).attempts := by
  unfold failRow
  split_ifs
  · exact Nat.le_succ _
  · exact Nat.le_succ _
  · exact le_rfl

theorem attempts_le_foldl_failRow {account : Id} {now : Time} (chunks : List (List Id)) :
    r.attempts ≤ (chunks.foldl (failRow S account now) r).attempts :=
  List.foldlRecOn (motive := fun r' : WatchActionRun => r.attempts ≤ r'.attempts) _ _ le_rfl
    fun _ hle _ _ => hle.trans attempts_le_failRow

theorem Settle.attempts_le_row : r.attempts ≤ (x.row S s r).attempts := by
  cases x with
  | close => exact le_rfl
  | complete action res d =>
    simp only [Settle.row]
    split_ifs <;> exact le_rfl
  | fail => exact attempts_le_foldl_failRow _

/-- **A failed slice burns an attempt** of each of its pending runs. -/
theorem Settle.attempts_lt_row_fail (hg : batchGuard s.window.accountId s.ids r = true) :
    r.attempts < (Settle.fail.row S s r).attempts := by
  obtain ⟨hid, hacc, hp⟩ := batchGuard_iff.mp hg
  have hex := (Batched.mem_flatten_batched (n := idInChunk) (by decide)).mpr hid
  simp only [Settle.row]
  generalize Batched.batched idInChunk s.ids = chunks at hex
  induction chunks with
  | nil =>
    obtain ⟨_, hc, -⟩ := hex
    cases hc
  | cons chunk chunks ih =>
    rw [List.foldl_cons]
    by_cases hc : r.id ∈ chunk
    · refine Nat.lt_of_lt_of_le ?_ (attempts_le_foldl_failRow chunks)
      rw [failRow, if_pos (batchGuard_iff.mpr ⟨hc, hacc, hp⟩)]
      split_ifs <;> exact Nat.lt_succ_self _
    · have hrow : failRow S s.window.accountId s.now r chunk = r :=
        if_neg fun hg => hc (batchGuard_iff.mp hg).1
      rw [hrow]
      obtain ⟨c, hcm, hrc⟩ := hex
      refine ih ⟨c, (List.mem_cons.mp hcm).resolve_left ?_, hrc⟩
      rintro rfl
      exact hc hrc

/-- A settlement leaves no run pending that has no attempt left. -/
theorem Settle.attempts_row_lt (h : r.state = pending → r.attempts < S.watchRunMaxAttempts)
    (hp : (x.row S s r).state = pending) : (x.row S s r).attempts < S.watchRunMaxAttempts := by
  revert hp
  cases x with
  | close => exact h
  | complete action res d =>
    simp only [Settle.row]
    split_ifs
    · exact fun hp => absurd hp (ne_pending_of_outcome res.isOutcome)
    · exact h
  | fail =>
    refine List.foldlRecOn (motive := fun r' : WatchActionRun => r'.state = pending →
      r'.attempts < S.watchRunMaxAttempts) _ _ h fun r' ih chunk _ => ?_
    unfold failRow
    split_ifs with hg hmax
    · exact fun hp => by cases hp
    · exact fun _ => Nat.lt_of_not_le hmax
    · exact ih

end Row

theorem keys_settle (s : Slice) (x : Settle) (runs : List WatchActionRun) :
    (s.settle S runs x).map WatchActionRun.key = runs.map WatchActionRun.key := by
  rw [settle_eq_map, List.map_map]
  exact List.map_congr_left fun _ _ => Settle.row_key

theorem RowWrite.id {t : Thread} {r r' : WatchActionRun} (h : RowWrite S t r r') : r'.id = r.id := by
  cases h with
  | settle => exact Settle.row_id
  | _ => rfl

theorem RowWrite.key {t : Thread} {r r' : WatchActionRun} (h : RowWrite S t r r') :
    r'.key = r.key := by
  cases h with
  | settle => exact Settle.row_key
  | _ => rfl

theorem RowWrite.scheduledAt {t : Thread} {r r' : WatchActionRun} (h : RowWrite S t r r') :
    r'.scheduledAt = r.scheduledAt := by
  cases h with
  | settle => exact Settle.row_scheduledAt
  | _ => rfl

/-- A row that a write leaves pending was pending before. -/
theorem RowWrite.tried {t : Thread} {r r' : WatchActionRun} (h : RowWrite S t r r')
    (hp : r'.state = .pending) : Tried r r' := by
  cases h with
  | keep => exact .refl hp
  | complete hg => exact absurd hp (ne_pending_of_outcome (ActionResult.isOutcome _))
  | settle => exact Settle.tried_row hp
  | _ => cases hp

/-- No write takes an attempt back. -/
theorem RowWrite.attempts_le {t : Thread} {r r' : WatchActionRun} (h : RowWrite S t r r') :
    r.attempts ≤ r'.attempts := by
  cases h with
  | claim => exact Nat.le_succ _
  | settle => exact Settle.attempts_le_row
  | _ => exact le_rfl

/-- A write leaves no run pending that has no attempt left. -/
theorem RowWrite.attempts_lt {t : Thread} {r r' : WatchActionRun} (h : RowWrite S t r r')
    (hr : r.state = .pending → r.attempts < S.watchRunMaxAttempts) (hp : r'.state = .pending) :
    r'.attempts < S.watchRunMaxAttempts := by
  cases h with
  | keep => exact hr hp
  | complete => exact absurd hp (ne_pending_of_outcome (ActionResult.isOutcome _))
  | settle => exact Settle.attempts_row_lt hr hp
  | _ => cases hp

/-- A row of an updated table is a row that the update left, or one that it wrote. -/
theorem rowWrite_update {t : Thread} {runs : List WatchActionRun} {p : WatchActionRun → Bool}
    {f : WatchActionRun → WatchActionRun} (hw : ∀ r, p r = true → RowWrite S t r (f r)) :
    ∀ r' ∈ Table.update p f runs, ∃ r ∈ runs, RowWrite S t r r' := by
  intro r' hr'
  obtain ⟨r, hr, rfl⟩ := Table.mem_update.mp hr'
  refine ⟨r, hr, ?_⟩
  split_ifs with hp
  · exact hw r hp
  · exact .keep

/-- The rows after an advance that follows an update. -/
theorem Advanced.rows {mint : Id → Id} {account : Id} {batch runs : List WatchActionRun}
    {succ : Option WatchAction} {now : Time} {w w' : World} {t : Thread}
    (h : Advanced R mint account batch succ now w w')
    (hw : ∀ r' ∈ w.runs, ∃ r ∈ runs, RowWrite S t r r')
    (hk : w.runs.map WatchActionRun.key = runs.map WatchActionRun.key) :
    ∀ r' ∈ w'.runs, (∃ r ∈ runs, RowWrite S t r r') ∨
      (IsNewRun r' ∧ r'.key ∉ runs.map WatchActionRun.key) := by
  intro r' hr'
  rcases h.runs.2 r' hr' with hold | ⟨nxt, -, tm, r, -, rfl, hfree⟩
  · exact .inl (hw r' hold)
  · exact .inr ⟨⟨_, _, _, _, _, _, _, _, rfl⟩, hk ▸ hfree⟩

/-- **The rows after a step.** -/
theorem System.rows {t t' : Thread} {w w' : World} (h : System S E R on t w w' t') :
    ∀ r' ∈ w'.runs, (∃ r ∈ w.runs, RowWrite S t r r') ∨
      (IsNewRun r' ∧ r'.key ∉ w.runs.map WatchActionRun.key) := by
  have same : ∀ r' ∈ w.runs, (∃ r ∈ w.runs, RowWrite S t r r') ∨
      (IsNewRun r' ∧ r'.key ∉ w.runs.map WatchActionRun.key) :=
    fun r' hr' => .inl ⟨r', hr', .keep⟩
  cases h with
  | drain _ h =>
    cases h with
    | claim hr hg => exact fun r' hr' => .inl (rowWrite_update (fun _ hg => .claim hg) r' hr')
    | @commit w w' h action succ res d mint hwin hm hb hadv =>
      refine (advanced_of_enqueueNextBatch hadv).rows
        (rowWrite_update fun _ hg => .complete hg) ?_
      exact Table.map_update (f := completedRow res _ d _) _ fun _ _ => rfl
    | _ => exact same
  | reap _ h =>
    cases h with
    | exhausted =>
      refine fun r' hr' => .inl (rowWrite_update (fun _ hg => ?_) r' hr')
      exact .exhausted (of_decide_eq_true hg).1 (of_decide_eq_true hg).2
    | retryable =>
      refine fun r' hr' => .inl (rowWrite_update (fun _ hg => ?_) r' hr')
      exact .retryable (of_decide_eq_true hg).1 (of_decide_eq_true hg).2
    | _ => exact same
  | flush _ h =>
    cases h with
    | unresolvable =>
      simp only [completeBatch_eq_update]
      exact fun r' hr' => .inl (rowWrite_update (fun _ hg => .unresolvable _ hg) r' hr')
    | gone =>
      simp only [completeBatch_eq_update]
      exact fun r' hr' => .inl (rowWrite_update (fun _ hg => .gone hg) r' hr')
    | check => split_ifs <;> exact same
    | @commit w w' s x succ mint locked drained hm hb hadv =>
      refine (advanced_of_enqueueNextBatch hadv).rows (fun r' hr' => ?_) ?_
      · have hr' : r' ∈ s.settle S w.runs x := hr'
        rw [settle_eq_map] at hr'
        obtain ⟨r, hr, rfl⟩ := List.mem_map.mp hr'
        exact ⟨r, hr, .settle⟩
      · exact keys_settle s x w.runs
    | _ => exact same
  | trigger _ h =>
    cases h with
    | chunk hm hc =>
      intro r' hr'
      rcases (enqueueChunk_inserted hc).new r' hr' with hold | ⟨hnew, hfree⟩
      · exact same r' hold
      · obtain ⟨item, -, rfl⟩ := List.mem_map.mp hnew
        exact .inr ⟨⟨_, _, _, _, _, _, _, _, rfl⟩, hfree⟩
    | _ => exact same
  | edit _ h => cases h <;> exact same
  | env _ h =>
    cases h with
    | deleteRuns p => exact fun r' hr' => same r' (List.mem_of_mem_filter hr')
    | _ => exact same

/-- **Without deletes, no step loses the run of a key.** -/
theorem System.runKeys {t t' : Thread} {w w' : World} (h : System S E R on t w w' t')
    (hdel : ¬ on .deleteRuns) :
    w.runs.map WatchActionRun.key ⊆ w'.runs.map WatchActionRun.key := by
  have upd {p : WatchActionRun → Bool} {f : WatchActionRun → WatchActionRun}
      (hf : ∀ r, (f r).key = r.key) : w.runs.map WatchActionRun.key ⊆
        (Table.update p f w.runs).map WatchActionRun.key := by
    rw [Table.map_update _ fun r _ => hf r]
    exact fun _ h => h
  cases h with
  | drain _ h =>
    cases h with
    | claim => exact upd fun _ => rfl
    | @commit w w' h action succ res d mint hwin hm hb hadv =>
      refine List.Subset.trans ?_ (List.map_subset _ (advanced_of_enqueueNextBatch hadv).runs.1)
      exact upd (f := completedRow res _ d _) fun _ => rfl
    | _ => exact fun _ h => h
  | reap _ h =>
    cases h with
    | exhausted => exact upd fun _ => rfl
    | retryable => exact upd fun _ => rfl
    | _ => exact fun _ h => h
  | flush _ h =>
    cases h with
    | unresolvable | gone =>
      rw [completeBatch_eq_update]
      exact upd fun _ => rfl
    | check => split_ifs <;> exact fun _ h => h
    | @commit w w' s x succ mint locked drained hm hb hadv =>
      refine List.Subset.trans ?_ (List.map_subset _ (advanced_of_enqueueNextBatch hadv).runs.1)
      exact fun k hk => (keys_settle s x w.runs).symm ▸ hk
    | _ => exact fun _ h => h
  | trigger _ h =>
    cases h with
    | chunk hm hc => exact List.map_subset _ (enqueueChunk_inserted hc).old
    | _ => exact fun _ h => h
  | edit _ h => cases h <;> exact fun _ h => h
  | env hon h =>
    cases h with
    | deleteRuns p => exact absurd hon hdel
    | _ => exact fun _ h => h

/-- **The rows before and after a step without deletes.** Every row is written at most once, and a
new row has a new id. -/
theorem System.evolve {t t' : Thread} {w w' : World} (h : System S E R on t w w' t')
    (hdel : ¬ on .deleteRuns) (hw : RunsOk w.runs) (hw' : RunsOk w'.runs) :
    (∀ r ∈ w.runs, ∃ r' ∈ w'.runs, RowWrite S t r r') ∧
      ∀ r' ∈ w'.runs, (∃ r ∈ w.runs, RowWrite S t r r') ∨
        (IsNewRun r' ∧ ∀ r ∈ w.runs, r.id ≠ r'.id) := by
  have hfwd : ∀ r ∈ w.runs, ∃ r' ∈ w'.runs, RowWrite S t r r' := by
    intro r hr
    obtain ⟨r', hr', hk⟩ := List.mem_map.mp (h.runKeys hdel (List.mem_map_of_mem hr))
    rcases h.rows r' hr' with ⟨r₀, hr₀, hwr⟩ | ⟨-, hfree⟩
    · obtain rfl := hw.keyUnique r₀ hr₀ r hr (hwr.key.symm.trans hk)
      exact ⟨r', hr', hwr⟩
    · exact absurd (hk ▸ List.mem_map_of_mem hr) hfree
  refine ⟨hfwd, fun r' hr' => (h.rows r' hr').imp_right fun ⟨hnew, hfree⟩ => ⟨hnew, ?_⟩⟩
  intro r hr hid
  obtain ⟨r₁, hr₁, hwr⟩ := hfwd r hr
  obtain rfl := hw'.ids r₁ hr₁ r' hr' (hwr.id.trans hid)
  exact hfree (hwr.key ▸ List.mem_map_of_mem hr)

end OpenMagpie
