import OpenMagpie.Watches.System

/-!
# Pending runs of an action

Which steps can add a pending run to an action, and what the settlement of a slice leaves pending.

* `Settle.row`, `settle_eq_map`: a settlement acts on each row by itself.
* `NoNew k runs runs'`: every pending run of the action `k` was pending before, with at most as
  many attempts; **`drained_settle`**: a settlement that drains an action still does when no
  pending run was added meanwhile.
* `Thread.AdvancesInto`, `Thread.EnqueuesInto`: the steps that add pending runs;
  **`System.pendingRuns`**: every other step adds none.
-/

set_option autoImplicit false

namespace OpenMagpie

open WatchActionRunState Interleave

variable {C : Type} {S : Settings} {E : Executors} {R : Registry C} {on : Component → Prop}

/-! ## A settlement, row by row -/

/-- A row after one chunk of `fail_batch`. -/
def failRow (S : Settings) (account : Id) (now : Time) (r : WatchActionRun) (chunk : List Id) :
    WatchActionRun :=
  if batchGuard account chunk r then
    if S.watchRunMaxAttempts ≤ r.attempts + 1 then exhaustedRow now (burnedRow r) else burnedRow r
  else r

theorem failChunk_eq_map (account : Id) (now : Time) (runs : List WatchActionRun)
    (chunk : List Id) :
    failChunk S account now runs chunk = runs.map fun r => failRow S account now r chunk := by
  rw [failChunk, Table.update, Table.update, List.map_map]
  refine List.map_congr_left fun r _ => ?_
  -- the guard of the second update reads columns that the first one keeps
  have hg : batchGuard account chunk (burnedRow r) = batchGuard account chunk r := rfl
  have ha : (burnedRow r).attempts = r.attempts + 1 := rfl
  cases h : batchGuard account chunk r with
  | false => simp [failRow, h]
  | true => simp [failRow, h, hg, ha]

/-- Chunks of maps, one after the other, are one map. -/
theorem foldl_map {α β : Type} (f : α → β → α) (bs : List β) (t : List α) :
    bs.foldl (fun t b => t.map fun a => f a b) t = t.map fun a => bs.foldl f a := by
  induction bs generalizing t with
  | nil => simp
  | cons b bs ih => rw [List.foldl_cons, ih, List.map_map]; rfl

/-- A row after the settlement of a slice. -/
def Settle.row (S : Settings) (s : Slice) (r : WatchActionRun) : Settle → WatchActionRun
  | .close => r
  | .complete action res d =>
    if batchGuard s.window.accountId s.ids r then
      completedRow res (some s.now) d (some action.kind) r
    else r
  | .fail => (Batched.batched idInChunk s.ids).foldl (failRow S s.window.accountId s.now) r

theorem settle_eq_map (s : Slice) (x : Settle) (runs : List WatchActionRun) :
    s.settle S runs x = runs.map fun r => x.row S s r := by
  cases x with
  | close => exact (List.map_id' runs).symm
  | complete action res d =>
    rw [Slice.settle, completeBatch_eq_update]
    rfl
  | fail =>
    have hchunk : failChunk S s.window.accountId s.now = fun runs chunk =>
        runs.map fun r => failRow S s.window.accountId s.now r chunk := by
      funext runs chunk
      exact failChunk_eq_map _ _ _ _
    rw [Slice.settle, failBatch, hchunk, foldl_map]
    rfl

/-! ## Pending before and after -/

/-- `r'` is a later state of the pending run `r`: the same run, tried at least as often. -/
structure Tried (r r' : WatchActionRun) : Prop where
  id : r.id = r'.id
  account : r.accountId = r'.accountId
  action : r.actionId = r'.actionId
  state : r.state = pending
  attempts : r.attempts ≤ r'.attempts

theorem Tried.refl {r : WatchActionRun} (h : r.state = pending) : Tried r r :=
  ⟨rfl, rfl, rfl, h, le_rfl⟩

theorem Tried.trans {r r' r'' : WatchActionRun} (h : Tried r r') (h' : Tried r' r'') :
    Tried r r'' :=
  ⟨h.id.trans h'.id, h.account.trans h'.account, h.action.trans h'.action, h.state,
    h.attempts.trans h'.attempts⟩

/-- Both runs pending, a batch update selects both or none. -/
theorem Tried.batchGuard {r r' : WatchActionRun} (h : Tried r r') (h' : r'.state = pending)
    (account : Id) (ids : List Id) :
    batchGuard account ids r = OpenMagpie.batchGuard account ids r' := by
  rw [Bool.eq_iff_iff, batchGuard_iff, batchGuard_iff, h.id, h.account, h.state, h']

section Fail

variable {account : Id} {now : Time} {chunk : List Id} {r r' : WatchActionRun}

/-- A row that is pending after a chunk of `fail_batch` was pending before. -/
theorem tried_failRow (h : (failRow S account now r chunk).state = pending) :
    Tried r (failRow S account now r chunk) := by
  unfold failRow at h ⊢
  split_ifs at h ⊢ with hg hmax
  · cases h
  · exact ⟨rfl, rfl, rfl, h, Nat.le_succ _⟩
  · exact .refl h

/-- Fewer attempts leave a run pending where more do. -/
theorem tried_failRow_mono (h : Tried r r') (hp : (failRow S account now r' chunk).state = pending) :
    Tried (failRow S account now r chunk) (failRow S account now r' chunk) := by
  have hp' : r'.state = pending := (tried_failRow hp).state
  have hle := h.attempts
  unfold failRow at hp ⊢
  rw [h.batchGuard hp']
  by_cases hg : batchGuard account chunk r' = true
  · rw [if_pos hg] at hp ⊢
    by_cases hm : S.watchRunMaxAttempts ≤ r'.attempts + 1
    · rw [if_pos hm] at hp
      cases hp
    · rw [if_neg hm, if_pos hg, if_neg (by omega)]
      exact ⟨h.id, h.account, h.action, h.state, Nat.succ_le_succ hle⟩
  · rw [if_neg hg, if_neg hg]
    exact h

theorem tried_foldl_failRow (chunks : List (List Id))
    (h : (chunks.foldl (failRow S account now) r).state = pending) :
    Tried r (chunks.foldl (failRow S account now) r) := by
  induction chunks generalizing r with
  | nil => exact .refl h
  | cons chunk chunks ih =>
    have hrest := ih h
    exact (tried_failRow hrest.state).trans hrest

theorem tried_foldl_failRow_mono (chunks : List (List Id)) (h : Tried r r')
    (hp : (chunks.foldl (failRow S account now) r').state = pending) :
    Tried (chunks.foldl (failRow S account now) r) (chunks.foldl (failRow S account now) r') := by
  induction chunks generalizing r r' with
  | nil => exact h
  | cons chunk chunks ih =>
    exact ih (tried_failRow_mono h (tried_foldl_failRow chunks hp).state) hp

end Fail

/-- **A row that a settlement leaves pending was pending before.** -/
theorem Settle.tried_row {s : Slice} {x : Settle} {r : WatchActionRun}
    (h : (x.row S s r).state = .pending) : Tried r (x.row S s r) := by
  cases x with
  | close => exact .refl h
  | complete action res d =>
    simp only [Settle.row] at h ⊢
    split_ifs at h ⊢
    · exact absurd h (ne_pending_of_outcome res.isOutcome)
    · exact .refl h
  | fail => exact tried_foldl_failRow _ h

/-- **A settlement leaves a run pending when it leaves a later state of it pending.** -/
theorem Settle.tried_row_mono {s : Slice} {x : Settle} {r r' : WatchActionRun} (h : Tried r r')
    (hp : (x.row S s r').state = .pending) : Tried (x.row S s r) (x.row S s r') := by
  have hp' : r'.state = .pending := (Settle.tried_row hp).state
  cases x with
  | close => exact h
  | complete action res d =>
    simp only [Settle.row] at hp ⊢
    rw [h.batchGuard hp']
    by_cases hg : batchGuard s.window.accountId s.ids r' = true
    · rw [if_pos hg] at hp
      exact absurd hp (ne_pending_of_outcome res.isOutcome)
    · rw [if_neg hg, if_neg hg]
      exact h
  | fail => exact tried_foldl_failRow_mono _ h hp

/-- No pending run of the action `k` was added: each was pending before. -/
def NoNew (k : WindowKey) (runs runs' : List WatchActionRun) : Prop :=
  ∀ r' ∈ runs', IsPendingOf k.1 k.2 r' → ∃ r ∈ runs, Tried r r'

section NoNew

variable {k : WindowKey} {runs runs' runs'' : List WatchActionRun}

/-- Pending rows that were there before. -/
theorem NoNew.of_mem (h : ∀ r ∈ runs', r.state = pending → r ∈ runs) : NoNew k runs runs' :=
  fun r hr hp => ⟨r, h r hr hp.2.2, .refl hp.2.2⟩

theorem Tried.isPendingOf {r r' : WatchActionRun} (h : Tried r r') (hp : IsPendingOf k.1 k.2 r') :
    IsPendingOf k.1 k.2 r :=
  ⟨h.account.trans hp.1, h.action.trans hp.2.1, h.state⟩

theorem NoNew.trans (h : NoNew k runs runs') (h' : NoNew k runs' runs'') : NoNew k runs runs'' := by
  intro r'' hr'' hp
  obtain ⟨r', hr', ht'⟩ := h' r'' hr'' hp
  obtain ⟨r, hr, ht⟩ := h r' hr' (ht'.isPendingOf hp)
  exact ⟨r, hr, ht.trans ht'⟩

/-- An update that moves the rows it selects out of pending. -/
theorem NoNew.update {p : WatchActionRun → Bool} {f : WatchActionRun → WatchActionRun}
    (hf : ∀ r, p r = true → (f r).state ≠ pending) : NoNew k runs (Table.update p f runs) := by
  refine .of_mem (Table.forall_update (fun r _ hp hs => ?_) fun r hr _ _ => hr)
  exact absurd hs (hf r hp)

theorem NoNew.completeBatch {account : Id} {ids : List Id} {res : ActionResult} {d : Option Id}
    {kind : Option String} {now : Time} :
    NoNew k runs (completeBatch account ids res d kind now runs) := by
  rw [completeBatch_eq_update]
  exact .update fun _ _ => ne_pending_of_outcome res.isOutcome

theorem NoNew.settle (s : Slice) (x : Settle) : NoNew k runs (s.settle S runs x) := by
  rw [settle_eq_map]
  intro r' hr' hp
  obtain ⟨r, hr, rfl⟩ := List.mem_map.mp hr'
  exact ⟨r, hr, Settle.tried_row hp.2.2⟩

/-- A drained action stays drained when no pending run is added. -/
theorem IsDrained.of_noNew (hd : IsDrained k.1 k.2 runs) (h : NoNew k runs runs') :
    IsDrained k.1 k.2 runs' := by
  intro r' hr' hp
  obtain ⟨r, hr, ht⟩ := h r' hr' hp
  exact hd r hr (ht.isPendingOf hp)

/-- **A settlement that drains an action still drains it** when no pending run was added. -/
theorem drained_settle {s : Slice} {x : Settle} (hd : IsDrained k.1 k.2 (s.settle S runs x))
    (h : NoNew k runs runs') : IsDrained k.1 k.2 (s.settle S runs' x) := by
  rw [settle_eq_map] at hd ⊢
  intro r'' hr'' hp
  obtain ⟨r', hr', rfl⟩ := List.mem_map.mp hr''
  have hback := Settle.tried_row hp.2.2
  obtain ⟨r, hr, ht⟩ := h r' hr' (hback.isPendingOf hp)
  have hlater := Settle.tried_row_mono ht hp.2.2
  exact hd _ (List.mem_map_of_mem hr) (hlater.isPendingOf hp)

end NoNew

/-! ## The steps that add pending runs -/

/-- The window row that a flush has locked. -/
def Thread.lock : Thread → Option WindowKey
  | .flush (.closing s _ _ _ true _) => some s.window.key
  | _ => none

/-- The thread is about to advance a batch of the account into `nxt`. -/
def Thread.AdvancesInto (account : Id) (nxt : WatchAction) : Thread → Prop
  | .drain (.advancing k _ _ _ succ) => k.run.accountId = account ∧ succ = some nxt
  | .flush (.closing s _ succ ..) => s.window.accountId = account ∧ succ = some nxt
  | _ => False

/-- The thread is about to enqueue a new run of the action `k` for one of its page's items. -/
def Thread.EnqueuesInto (w : World) (k : WindowKey) : Thread → Prop
  | .trigger (.paged s _ page) => k = (s.pass.watch.accountId, s.pass.head.id) ∧ ∃ item ∈ page,
      (s.pass.watch.accountId, s.pass.watch.id, s.pass.head.id, item) ∉
        w.runs.map WatchActionRun.key
  | _ => False

/-- An advance adds no pending run to an action it does not go into. -/
theorem Advanced.noNew {mint : Id → Id} {account : Id} {batch : List WatchActionRun}
    {succ : Option WatchAction} {now : Time} {w w' : World} {k : WindowKey}
    (h : Advanced R mint account batch succ now w w')
    (hno : ∀ r ∈ batch, ∀ nxt ∈ succ, ¬ (account = k.1 ∧ nxt.id = k.2)) :
    NoNew k w.runs w'.runs := by
  intro x hx hp
  rcases h.runs.2 x hx with hx | ⟨nxt, hn, t, r, hr, rfl, -⟩
  · exact ⟨x, hx, .refl hp.2.2⟩
  · exact absurd ⟨hp.1, hp.2.1⟩ (hno r hr nxt hn)

/-- What an advance into a digest does about its window: it does not commit while another
transaction has locked the row, and it leaves the window open. -/
def OpensInto (w w' : World) (k : WindowKey) (t : Thread) : Prop :=
  (k ∈ w.locked → t.lock = some k) ∧
    (t.lock ≠ some k → ∀ v ∈ w'.windows, v.key = k → v.closeAt ≠ none)

/-- The advance of a commit adds pending runs of `k` only when it goes into it. -/
theorem Advanced.pending {mint : Id → Id} {account : Id} {batch runs : List WatchActionRun}
    {succ : Option WatchAction} {now : Time} {w w' : World} {k : WindowKey} {P : Prop}
    (h : Advanced R mint account batch succ now w w') (hruns : NoNew k runs w.runs)
    (hP : ∀ nxt, batch ≠ [] → succ = some nxt → account = k.1 → nxt.id = k.2 → P) :
    NoNew k runs w'.runs ∨ P := by
  by_cases hno : ∀ r ∈ batch, ∀ nxt ∈ succ, ¬ (account = k.1 ∧ nxt.id = k.2)
  · exact .inl (hruns.trans (h.noNew hno))
  · push Not at hno
    obtain ⟨r, hr, nxt, hn, hacc, hid⟩ := hno
    exact .inr (hP nxt (List.ne_nil_of_mem hr) hn hacc hid)

/-- **Which steps add a pending run to an action.** An advance into it, which opens its window when
it is a digest; and a trigger's chunk, with a run for an item that has none. -/
theorem System.pendingRuns {t t' : Thread} {w w' : World} (h : System S E R on t w w' t')
    (k : WindowKey) : NoNew k w.runs w'.runs ∨
      (∃ nxt, t.AdvancesInto k.1 nxt ∧ nxt.id = k.2 ∧ (IsDigest R nxt → OpensInto w w' k t)) ∨
      (t.EnqueuesInto w k ∧ t' ≠ .trigger .idle ∧ w'.windows = w.windows) := by
  have same {runs' : List WatchActionRun} {P : Prop} (hr : runs' = w.runs) :
      NoNew k w.runs runs' ∨ P := .inl (.of_mem fun r hm _ => hr ▸ hm)
  obtain ⟨account, id⟩ := k
  cases h with
  | drain _ h =>
    cases h with
    | claim => exact .inl (.update fun _ _ => show running ≠ pending by decide)
    | @commit w w' d action succ res dl mint hwin hm hb hadv =>
      have ha := advanced_of_enqueueNextBatch hadv
      refine ha.pending (.update fun _ _ => ne_pending_of_outcome res.isOutcome) ?_
      rintro nxt hne rfl rfl rfl
      refine .inl ⟨nxt, ⟨rfl, rfl⟩, rfl, fun hd => ⟨fun hl => ?_, fun _ => ?_⟩⟩
      · exact absurd ⟨nxt, rfl, hd, hl⟩ hb
      · exact ha.opened hne rfl hd
    | _ => exact same rfl
  | reap _ h =>
    cases h with
    | exhausted => exact .inl (.update fun _ _ => show failed ≠ pending by decide)
    | retryable => exact .inl (.update fun _ _ => show failed ≠ pending by decide)
    | _ => exact same rfl
  | flush _ h =>
    cases h with
    | unresolvable => exact .inl .completeBatch
    | gone => exact .inl .completeBatch
    | check => split_ifs <;> exact same rfl
    | @commit w w' s x succ mint locked drained hm hb hadv =>
      have ha := advanced_of_enqueueNextBatch hadv
      refine ha.pending (.settle s x) ?_
      rintro nxt hne rfl rfl rfl
      refine .inl ⟨nxt, ⟨rfl, rfl⟩, rfl, fun hd => ⟨fun hl => ?_, fun hlock v hv hk => ?_⟩⟩
      · by_contra hlock
        refine hb ⟨nxt, rfl, hd, ?_⟩
        cases locked with
        | false => exact hl
        | true =>
          refine (List.mem_erase_of_ne fun he => hlock ?_).mpr hl
          exact congrArg some he.symm
      · cases locked with
        | false => exact ha.opened hne rfl hd v hv hk
        | true =>
          cases drained with
          | false => exact ha.opened hne rfl hd v hv hk
          | true =>
            rcases mem_closeWindow hv with hv | ⟨hown, -⟩
            · exact ha.opened hne rfl hd v hv hk
            · exact absurd (congrArg some (hown.symm.trans hk)) hlock
    | _ => exact same rfl
  | trigger _ h =>
    cases h with
    | @chunk w s tm page mint runs' n hm hc =>
      by_cases hno : NoNew (account, id) w.runs runs'
      · exact .inl hno
      refine .inr (.inr ⟨?_, ?_, rfl⟩)
      · unfold NoNew at hno
        push Not at hno
        obtain ⟨x, hx, hp, hnot⟩ := hno
        rcases (enqueueChunk_inserted hc).new x hx with hold | ⟨hnew, hfree⟩
        · exact absurd (.refl hp.2.2) (hnot x hold)
        · obtain ⟨item, hitem, rfl⟩ := List.mem_map.mp hnew
          exact ⟨Prod.ext hp.1.symm hp.2.1.symm, item, hitem, hfree⟩
      · split_ifs <;> nofun
    | _ => exact same rfl
  | edit _ h =>
    rcases h.writes with ⟨locks, rfl⟩ | ⟨x, locks, hc, hl, rfl⟩ <;> exact same rfl
  | env _ h =>
    cases h with
    | deleteRuns p => exact .inl (.of_mem fun r hr _ => List.mem_of_mem_filter hr)
    | _ => exact same rfl

end OpenMagpie
