import OpenMagpie.Watches.Fencing

/-!
# The reaper and the pass clock

A claim stamps `started_at` with the clock of its pass, read when the pass began, and the reaper
compares that stamp with its cutoff. A claim that is still fresh when the reaper runs is reaped
all the same when its pass began before the cutoff.

* `latestClaim`: the pass clock and the wall clock of a run's latest claim.
* `Stamped`, `System.stamped`: a running run carries the pass clock of its latest claim.
* **`fresh_claim_spared`**: a fresh claim survives a reaper exactly when the claim's pass began at
  most the stale bound before it, and a run of the system whose reapers all find that is one in
  which no reaper flips a fresh claim.
* **`fresh_claim_reaped`**: a run claimed one second before the reaper reads it is flipped.
-/

set_option autoImplicit false

namespace OpenMagpie

open WatchActionRunState Interleave

/-- The pass clock and the wall clock of the latest claim of a run. -/
def latestClaim (log : List Event) (id : Id) : Option (Time × Time) :=
  log.findSome? fun
    | .claimed run _ passClock clock => if run = id then some (passClock, clock) else none
    | _ => none

/-- A running run is stamped with the pass clock of its latest claim. -/
def Stamped (w : World) : Prop :=
  ∀ r ∈ w.runs, r.state = running → ∀ x ∈ latestClaim w.log r.id, r.startedAt = some x.1

variable {C : Type} {S : Settings} {E : Executors} {R : Registry C} {on : Component → Prop}

theorem Stamped.of_log {w w' : World} (h : Stamped w)
    (hrun : ∀ r ∈ w'.runs, r.state = running → r ∈ w.runs)
    (hlog : latestClaim w'.log = latestClaim w.log) : Stamped w' := by
  intro r hr hs x hx
  rw [hlog] at hx
  exact h r (hrun r hr hs) hs x hx

/-! ## Which steps leave a run running -/

/-- An update that moves the rows it selects out of running keeps the running rows as they are. -/
theorem mem_of_mem_update {p : WatchActionRun → Bool} {f : WatchActionRun → WatchActionRun}
    {runs : List WatchActionRun} (hf : ∀ r, p r = true → (f r).state ≠ running) :
    ∀ r ∈ Table.update p f runs, r.state = running → r ∈ runs := by
  refine Table.forall_update (fun r hr hp hs => ?_) fun r hr _ _ => hr
  exact absurd hs (hf r hp)

theorem running_completeBatch {account : Id} {ids : List Id} {res : ActionResult} {d : Option Id}
    {k : Option String} {now : Time} {runs : List WatchActionRun} :
    ∀ r ∈ completeBatch account ids res d k now runs, r.state = running → r ∈ runs := by
  rw [completeBatch_eq_update]
  exact mem_of_mem_update fun r _ => ne_running_of_outcome res.isOutcome

/-- A batch that burns an attempt writes pending and failed rows only. -/
theorem running_failBatch {account : Id} {ids : List Id} {now : Time}
    {runs : List WatchActionRun} :
    ∀ r ∈ failBatch S account ids now runs, r.state = running → r ∈ runs := by
  unfold failBatch
  generalize Batched.batched idInChunk ids = chunks
  induction chunks generalizing runs with
  | nil => exact fun r hr _ => hr
  | cons chunk chunks ih =>
    intro r hr hs
    have hmid : r ∈ failChunk S account now runs chunk := ih r hr hs
    have hburn : r ∈ Table.update (batchGuard account chunk) burnedRow runs :=
      mem_of_mem_update (fun x _ => show failed ≠ running by decide) r hmid hs
    refine mem_of_mem_update (fun x hx => ?_) r hburn hs
    have hp : x.state = pending := (batchGuard_iff.mp hx).2.2
    show x.state ≠ running
    rw [hp]
    decide

theorem running_settle {s : Slice} {x : Settle} {runs : List WatchActionRun} :
    ∀ r ∈ s.settle S runs x, r.state = running → r ∈ runs := by
  cases x with
  | close => exact fun r hr _ => hr
  | complete action res d => exact running_completeBatch
  | fail => exact running_failBatch

/-- An advance adds pending rows only. -/
theorem Advanced.running {mint : Id → Id} {account : Id} {batch : List WatchActionRun}
    {succ : Option WatchAction} {now : Time} {w w' : World}
    (h : Advanced R mint account batch succ now w w') :
    ∀ r ∈ w'.runs, r.state = running → r ∈ w.runs := by
  intro r hr hs
  rcases h.runs.2 r hr with hr | ⟨_, _, _, _, _, rfl, _⟩
  · exact hr
  · cases hs

/-! ## The invariant -/

/-- A claim stamps the row it writes, and no other row of the table is the claimed run. -/
theorem Stamped.claim {w : World} {now : Time} {run r : WatchActionRun} {n : ℕ} (h : Stamped w)
    (hw : RunsOk w.runs) (hr : r ∈ w.runs) (hg : claimGuard S run r = true) :
    Stamped { w with
      runs := claimRun S run now w.runs
      log := .claimed run.id n now w.clock :: w.log } := by
  intro x hx hs y hy
  obtain ⟨z, hz, rfl⟩ := Table.mem_update.mp hx
  have hid : r.id = run.id := (claimGuard_iff.mp hg).1
  cases hgz : claimGuard S run z with
  | true =>
    have hzid : z.id = run.id := (claimGuard_iff.mp hgz).1
    simp only [hgz, if_true] at hy ⊢
    simp only [latestClaim, claimedRow, List.findSome?_cons, hzid, if_true, Option.mem_def,
      Option.some.injEq] at hy
    rw [← hy]
    rfl
  | false =>
    have hne : run.id ≠ z.id := by
      intro he
      have : r = z := hw.ids r hr z hz (hid.trans he)
      rw [this, hgz] at hg
      cases hg
    simp only [hgz] at hs hy ⊢
    simp only [Bool.false_eq_true, if_false] at hs hy ⊢
    simp only [latestClaim, List.findSome?_cons, hne, if_false] at hy
    exact h z hz hs y hy

/-- **Every step keeps the stamps.** -/
theorem System.stamped {t t' : Thread} {w w' : World} (h : System S E R on t w w' t')
    (hw : RunsOk w.runs) (hs : Stamped w) : Stamped w' := by
  have same {w' : World} (hr : w'.runs = w.runs) (hl : latestClaim w'.log = latestClaim w.log) :
      Stamped w' := hs.of_log (fun r h _ => hr ▸ h) hl
  cases h with
  | drain _ h =>
    cases h with
    | claim hr hg => exact hs.claim hw hr hg
    | @commit w w' k action succ res d mint hwin hm hb hadv =>
      have ha := advanced_of_enqueueNextBatch hadv
      refine hs.of_log (fun r hr hrun => ?_) (by rw [ha.frame]; rfl)
      have hc : r ∈ k.complete S action res d w.runs := ha.running r hr hrun
      exact mem_of_mem_update (fun _ _ => ne_running_of_outcome res.isOutcome) r hc hrun
    | _ => exact same rfl rfl
  | reap _ h =>
    cases h with
    | exhausted =>
      exact hs.of_log (mem_of_mem_update fun _ _ => show failed ≠ running by decide) rfl
    | retryable =>
      exact hs.of_log (mem_of_mem_update fun _ _ => show failed ≠ running by decide) rfl
    | _ => exact same rfl rfl
  | flush _ h =>
    cases h with
    | unresolvable => exact hs.of_log running_completeBatch rfl
    | gone => exact hs.of_log running_completeBatch rfl
    | check => split_ifs <;> exact same rfl rfl
    | @commit w w' s x succ mint locked drained hm hb hadv =>
      have ha := advanced_of_enqueueNextBatch hadv
      refine hs.of_log (fun r hr hrun => ?_) ?_
      · exact running_settle r (ha.running r hr hrun) hrun
      · show latestClaim w'.log = _
        rw [ha.frame]
        rfl
    | _ => exact same rfl rfl
  | trigger _ h =>
    cases h with
    | @chunk w s t page mint runs' n hm hc =>
      refine hs.of_log (fun r hr hrun => ?_) rfl
      rcases (enqueueChunk_inserted hc).new r hr with hr | ⟨hr, -⟩
      · exact hr
      · obtain ⟨item, -, rfl⟩ := List.mem_map.mp hr
        cases hrun
    | _ => exact same rfl rfl
  | edit _ h => cases h <;> exact same rfl rfl
  | env _ h =>
    cases h with
    | deleteRuns p => exact hs.of_log (fun r hr _ => List.mem_of_mem_filter hr) rfl
    | _ => exact same rfl rfl

/-- **The stamps in every reachable state.** -/
theorem reach_stamped {ok : StepCond World Thread} {c : Conf World Thread}
    (h : ReachIn (System S E R on) (Init InOrder) ok c) : Stamped c.shared := by
  have hK : ∀ c, ReachIn (System S E R on) (Init InOrder) ok c → RunsOk c.shared.runs :=
    fun c h => (reach_runsOk (fun _ hw => hw.runs) h).1
  refine (h.strengthen hK).invariant (I := fun c => Stamped c.shared) ?_ ?_
  · rintro c ⟨hw, -⟩ r - - x hx
    simp [hw.log, latestClaim] at hx
  · exact fun c p w t hs h hok => h.stamped hok.2.1 hs

/-! ## Fresh claims -/

/-- The next update of a reaper is the one for runs with these attempts. -/
def Reap.Covers (S : Settings) (now : Time) (run : WatchActionRun) : Reap → Prop
  | .idle => False
  | .started n => n = now ∧ S.watchRunMaxAttempts ≤ run.attempts
  | .halfway n => n = now ∧ run.attempts < S.watchRunMaxAttempts

/-- A running run that thread `p` is about to check at `now`, claimed by a pass of clock `pass` at
wall-clock time `at_`, at most the stale bound before `now`. -/
structure FreshAt (S : Settings) (c : Conf World Thread) (p : ℕ) (now : Time)
    (run : WatchActionRun) (pass claimed : Time) : Prop where
  reaper : ∃ r, c.thread p = .reap r ∧ r.Covers S now run
  mem : run ∈ c.shared.runs
  running : run.state = running
  latest : latestClaim c.shared.log run.id = some (pass, claimed)
  fresh : now - claimed ≤ S.watchRunStaleSeconds

/-- The passes of the fresh claims began at most the stale bound before the reaper. -/
def PassesRecent (S : Settings) : StepCond World Thread := fun c p _ _ =>
  ∀ now run pass claimed, FreshAt S c p now run pass claimed →
    now ≤ pass + S.watchRunStaleSeconds

/-- No fresh claim is flipped. -/
def SparesFresh (S : Settings) : StepCond World Thread := fun c p w _ =>
  ∀ now run pass claimed, FreshAt S c p now run pass claimed → run ∈ w.runs

/-- A reaper leaves a run that it does not find stale. -/
theorem System.spares {c : Conf World Thread} {p : ℕ} {w : World} {t : Thread} {now : Time}
    {run : WatchActionRun} {r : Reap} (h : System S E R on (c.thread p) c.shared w t)
    (hp : c.thread p = .reap r) (hr : r.Covers S now run) (hm : run ∈ c.shared.runs)
    (hs : ¬ IsStale S now run) : run ∈ w.runs := by
  rw [hp] at h
  cases h with
  | reap _ h =>
    cases h with
    | exhausted =>
      obtain ⟨rfl, -⟩ := hr
      exact Table.mem_update_of_not hm (decide_eq_false fun hc => hs hc.1)
    | retryable =>
      obtain ⟨rfl, -⟩ := hr
      exact Table.mem_update_of_not hm (decide_eq_false fun hc => hs hc.1)
    | start => exact hm
    | crash => exact hm

/-- A reaper flips a stale run that its next update is for. -/
theorem System.flips {c : Conf World Thread} {p : ℕ} {now : Time} {run : WatchActionRun} {r : Reap}
    (hon : on .reap) (hp : c.thread p = .reap r) (hr : r.Covers S now run)
    (hs : IsStale S now run) :
    ∃ w t, System S E R on (c.thread p) c.shared w t ∧ run ∉ w.runs := by
  have gone {p : WatchActionRun → Bool} {f : WatchActionRun → WatchActionRun}
      (hp : p run = true) (hf : ∀ x, (f x).state = failed) :
      run ∉ Table.update p f c.shared.runs := by
    intro hm
    obtain ⟨x, -, hx⟩ := Table.mem_update.mp hm
    split_ifs at hx with h
    · have : failed = running := by rw [← hf x, hx, hs.1]
      cases this
    · exact h (hx ▸ hp)
  cases r with
  | idle => exact hr.elim
  | started n =>
    obtain ⟨rfl, ha⟩ := hr
    rw [hp]
    exact ⟨_, _, .reap hon .exhausted, gone (decide_eq_true ⟨hs, ha⟩) fun _ => rfl⟩
  | halfway n =>
    obtain ⟨rfl, ha⟩ := hr
    rw [hp]
    exact ⟨_, _, .reap hon .retryable, gone (decide_eq_true ⟨hs, ha⟩) fun _ => rfl⟩

/-- A stamped run is stale when its pass began before the cutoff. -/
theorem FreshAt.stale_iff {c : Conf World Thread} {p : ℕ} {now pass claimed : Time}
    {run : WatchActionRun} (h : FreshAt S c p now run pass claimed) (hs : Stamped c.shared) :
    IsStale S now run ↔ ¬ now ≤ pass + S.watchRunStaleSeconds := by
  have hst : run.startedAt = some pass := hs run h.mem h.running _ h.latest
  have hlt (a b n : ℤ) : a < b - n ↔ ¬ b ≤ a + n := by omega
  simp only [IsStale, h.running, hst, Option.mem_def, Option.some.injEq, exists_eq_left', true_and]
  exact hlt _ _ _

/-- **A fresh claim survives the reaper exactly when its pass is fresh too.** In every reachable
state, no step of a reaper flips a run whose latest claim is at most the stale bound old if and
only if the claim's pass began at most the stale bound before; and a run of the system in which
that holds at every reaper never flips a fresh claim. -/
theorem fresh_claim_spared (hon : on .reap) :
    (∀ c, Reach (System S E R on) (Init InOrder) c → ∀ p now run pass claimed,
      FreshAt S c p now run pass claimed →
      ((∀ w t, System S E R on (c.thread p) c.shared w t → run ∈ w.runs) ↔
        now ≤ pass + S.watchRunStaleSeconds)) ∧
    ∀ c, ReachIn (System S E R on) (Init InOrder) (PassesRecent S) c →
      ReachIn (System S E R on) (Init InOrder) (SparesFresh S) c := by
  have key {c : Conf World Thread} (hc : Reach (System S E R on) (Init InOrder) c) {p : ℕ}
      {now pass claimed : Time} {run : WatchActionRun} (hf : FreshAt S c p now run pass claimed) :
      (∀ w t, System S E R on (c.thread p) c.shared w t → run ∈ w.runs) ↔
        now ≤ pass + S.watchRunStaleSeconds := by
    obtain ⟨r, hp, hr⟩ := hf.reaper
    have hst := hf.stale_iff (reach_stamped hc)
    constructor
    · intro hall
      by_contra hn
      obtain ⟨w, t, hstep, hgone⟩ := System.flips (E := E) (R := R) hon hp hr (hst.mpr hn)
      exact hgone (hall w t hstep)
    · exact fun hle w t hstep => hstep.spares hp hr hf.mem fun h => hst.mp h hle
  refine ⟨fun c hc p now run pass claimed hf => key hc hf, fun c hc => ?_⟩
  exact hc.imp fun c p w t h hs hok now run pass claimed hf =>
    (key h hf).mpr (hok now run pass claimed hf) w t hs

/-! ## With and without the condition -/

theorem init_oneRun' : Init InOrder ⟨oneRun, twoWorkers⟩ :=
  ⟨init_oneRun.1.toInOrder, init_oneRun.2⟩

/-- A run claimed at 0 by a pass of clock 0 survives a reaper at 600. -/
theorem fresh_claim_spared_at_bound : claimedRow 0 (sampleRun 1 1 1) ∈
    reapRetryable {} 600 [claimedRow 0 (sampleRun 1 1 1)] := by
  have h₀ : Reach (SampleSystem DrainOnly) (Init InOrder) ⟨oneRun, twoWorkers⟩ := .init init_oneRun'
  have h₁ := Reach.next h₀ 0 (.drain (.inl rfl) .start) rfl rfl
  have h₂ := Reach.next h₁ 0
    (.drain (.inl rfl) (.candidate (by decide : sampleRun 1 1 1 ∈ _))) rfl rfl
  have h₃ := Reach.next h₂ 0
    (.drain (.inl rfl) (.claim (by decide : sampleRun 1 1 1 ∈ _) (by decide))) rfl rfl
  have h₄ := Reach.next h₃ 3 (.env (.inr (.inr rfl)) (.clock 600)) rfl rfl
  have h₅ := Reach.next h₄ 2 (.reap (.inr (.inl rfl)) .start) rfl rfl
  have h₆ := Reach.next h₅ 2 (.reap (.inr (.inl rfl)) .exhausted) rfl rfl
  refine ((fresh_claim_spared (.inr (.inl rfl))).1 _ h₆ 2 600 (claimedRow 0 (sampleRun 1 1 1)) 0 0
    ⟨⟨.halfway 600, rfl, rfl, by decide⟩, by decide, rfl, rfl, by decide⟩).mpr (by decide) _ _
    (.reap (.inr (.inl rfl)) .retryable)

/-- **A run claimed one second before is flipped.** A pass begins at 0 and claims the run at 601;
the reaper of a pass that begins at 602 finds it stale. -/
theorem fresh_claim_reaped : ∃ (c : Conf World Thread) (run : WatchActionRun) (w : World)
    (t : Thread), Reach (SampleSystem DrainOnly) (Init InOrder) c ∧
      FreshAt {} c 2 602 run 0 601 ∧ SampleSystem DrainOnly (c.thread 2) c.shared w t ∧
      run ∉ w.runs := by
  have h₀ : Reach (SampleSystem DrainOnly) (Init InOrder) ⟨oneRun, twoWorkers⟩ := .init init_oneRun'
  have h₁ := Reach.next h₀ 0 (.drain (.inl rfl) .start) rfl rfl
  have h₂ := Reach.next h₁ 3 (.env (.inr (.inr rfl)) (.clock 601)) rfl rfl
  have h₃ := Reach.next h₂ 0
    (.drain (.inl rfl) (.candidate (by decide : sampleRun 1 1 1 ∈ _))) rfl rfl
  have h₄ := Reach.next h₃ 0
    (.drain (.inl rfl) (.claim (by decide : sampleRun 1 1 1 ∈ _) (by decide))) rfl rfl
  have h₅ := Reach.next h₄ 3 (.env (.inr (.inr rfl)) (.clock 602)) rfl rfl
  have h₆ := Reach.next h₅ 2 (.reap (.inr (.inl rfl)) .start) rfl rfl
  have h₇ := Reach.next h₆ 2 (.reap (.inr (.inl rfl)) .exhausted) rfl rfl
  refine ⟨_, claimedRow 0 (sampleRun 1 1 1), _, _, h₇,
    ⟨⟨.halfway 602, rfl, rfl, by decide⟩, by decide, rfl, rfl, by decide⟩,
    .reap (.inr (.inl rfl)) .retryable, by decide⟩

end OpenMagpie
