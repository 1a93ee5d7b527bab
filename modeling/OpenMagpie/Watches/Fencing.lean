import OpenMagpie.Watches.System

/-!
# The claim is a fence

The claims of a run are numbered by the attempts they write. A completer is fenced by the attempts
it read back after its claim; that is its own number unless another claim of the run lands between
the claiming UPDATE and the read.

* `RowStep`, **`System.rowStep`**: what a step of a drain or a reaper does to a run.
* `Fenced`, `Thread.Fenced`: the invariant that ties the rows to the claims the workers hold.
* **`completions_fenced`**: in every run in which no claim lands between a claim of the same run
  and its read-back, a claim completes at most once and only while it is the latest one.
* **`stale_claim_completes`**: without the condition a worker completes under a newer claim.
-/

set_option autoImplicit false

namespace OpenMagpie

open WatchActionRunState Interleave

/-- Drain workers and reapers, with time passing. -/
def DrainOnly (k : Component) : Prop := k = .drain ∨ k = .reap ∨ k = .clock

variable {C : Type} {S : Settings} {E : Executors} {R : Registry C}

/-! ## What a step does to a run -/

/-- A run after a step of a drain or a reaper. -/
structure RowStep (S : Settings) (r r' : WatchActionRun) : Prop where
  id : r'.id = r.id
  attempts : r.attempts ≤ r'.attempts
  bound : r.attempts ≤ S.watchRunMaxAttempts → r'.attempts ≤ S.watchRunMaxAttempts
  terminal : r.state ∈ terminalStates → r' = r
  rests : r'.attempts = r.attempts → r'.state = running → r.state = running

theorem RowStep.refl (r : WatchActionRun) : RowStep S r r :=
  ⟨rfl, le_rfl, fun h => h, fun _ => rfl, fun _ h => h⟩

theorem running_not_terminal : running ∉ terminalStates := by decide

theorem RowStep.claimed {r run : WatchActionRun} {now : Time} (hc : run.state ∈ claimableStates)
    (hg : claimGuard S run r = true) : RowStep S r (claimedRow now r) := by
  obtain ⟨-, hs, ha⟩ := claimGuard_iff.mp hg
  refine ⟨rfl, Nat.le_succ _, fun _ => ha, fun ht => ?_, fun h => ?_⟩
  · rw [hs] at ht
    revert hc ht
    cases run.state <;> simp [claimableStates, terminalStates]
  · exact absurd h (Nat.succ_ne_self _)

theorem RowStep.completed {r run : WatchActionRun} {res : ActionResult} {ct : Option Time}
    {d : Option Id} {k : Option String} (hg : completeGuard run r = true) :
    RowStep S r (completedRow res ct d k r) := by
  obtain ⟨-, hs, -⟩ := completeGuard_iff.mp hg
  exact ⟨rfl, le_rfl, fun h => h, fun ht => absurd (hs ▸ ht) running_not_terminal, fun _ _ => hs⟩

theorem RowStep.reapedExhausted {r : WatchActionRun} {now : Time} (hs : IsStale S now r) :
    RowStep S r (reapedExhausted now r) :=
  ⟨rfl, le_rfl, fun h => h, fun ht => absurd (hs.1 ▸ ht) running_not_terminal, fun _ _ => hs.1⟩

theorem RowStep.reapedRetryable {r : WatchActionRun} {now : Time} (hs : IsStale S now r) :
    RowStep S r (reapedRetryable r) :=
  ⟨rfl, le_rfl, fun h => h, fun ht => absurd (hs.1 ▸ ht) running_not_terminal, fun _ _ => hs.1⟩

/-- A worker's candidate came from `_due_runs`. -/
def Thread.CandidateOk : Thread → Prop
  | .drain (.candidate _ run) => run.state ∈ claimableStates
  | _ => True

theorem System.candidateOk {on : Component → Prop} {t t' : Thread} {w w' : World}
    (h : System S E R on t w w' t') : t'.CandidateOk := by
  cases h with
  | drain _ h =>
    cases h with
    | candidate h => exact (of_decide_eq_true (List.mem_filter.mp h).2 : IsDue S _ _ _).1
    | _ => trivial
  | _ => trivial

/-- The run is the one whose claim the thread has just written. -/
def Thread.JustClaimed (id : Id) (t : Thread) : Prop := ∃ now claim, t = .drain (.claimed now id claim)

/-- **What a step does to the runs.** No run goes away, and only a claim changes its attempts. -/
theorem System.rowStep {t t' : Thread} {w w' : World} (h : System S E R DrainOnly t w w' t')
    (hc : t.CandidateOk) : ∀ r ∈ w.runs, ∃ r' ∈ w'.runs, RowStep S r r' ∧
      (r'.attempts = r.attempts ∨ t'.JustClaimed r.id) := by
  have same {r : WatchActionRun} {runs : List WatchActionRun} (hr : r ∈ runs) :
      ∃ r' ∈ runs, RowStep S r r' ∧ (r'.attempts = r.attempts ∨ t'.JustClaimed r.id) :=
    ⟨r, hr, .refl r, .inl rfl⟩
  cases h with
  | drain _ h =>
    cases h with
    | @claim w now run r₀ hr₀ hg₀ =>
      intro r hr
      cases hg : claimGuard S run r with
      | false => exact same (Table.mem_update_of_not hr hg)
      | true =>
        refine ⟨claimedRow now r, Table.mem_update_of hr hg, .claimed hc hg, .inr ?_⟩
        exact ⟨now, _, by rw [(claimGuard_iff.mp hg).1]⟩
    | @commit w w' h action succ res d mint hwin hm hb hadv =>
      intro r hr
      have hsub := (advanced_of_enqueueNextBatch hadv).runs.1
      cases hg : completeGuard h.run r with
      | false => exact same (hsub (Table.mem_update_of_not hr hg))
      | true => exact ⟨_, hsub (Table.mem_update_of hr hg), .completed hg, .inl rfl⟩
    | _ => exact fun r hr => same hr
  | reap _ h =>
    cases h with
    | @exhausted w now =>
      intro r hr
      by_cases hp : IsStale S now r ∧ S.watchRunMaxAttempts ≤ r.attempts
      · exact ⟨_, Table.mem_update_of hr (decide_eq_true hp), .reapedExhausted hp.1, .inl rfl⟩
      · exact same (Table.mem_update_of_not hr (decide_eq_false hp))
    | @retryable w now =>
      intro r hr
      by_cases hp : IsStale S now r ∧ r.attempts < S.watchRunMaxAttempts
      · exact ⟨_, Table.mem_update_of hr (decide_eq_true hp), .reapedRetryable hp.1, .inl rfl⟩
      · exact same (Table.mem_update_of_not hr (decide_eq_false hp))
    | _ => exact fun r hr => same hr
  | env hon h =>
    cases h with
    | deleteRuns p => simp [DrainOnly] at hon
    | _ => exact fun r hr => same hr
  | flush hon h => simp [DrainOnly] at hon
  | trigger hon h => simp [DrainOnly] at hon
  | edit hon h => simp [DrainOnly] at hon

/-- A run of the table after a step was there before, or is new and untried. -/
theorem System.rowBack {t t' : Thread} {w w' : World} (h : System S E R DrainOnly t w w' t') :
    ∀ r' ∈ w'.runs, (∃ r ∈ w.runs, r.id = r'.id) ∨ r'.attempts = 0 := by
  cases h with
  | drain _ h =>
    cases h with
    | @claim w now => exact fun r' hr' => .inl (ids_update (f := claimedRow now) (fun _ => rfl) r' hr')
    | @commit w w' h action succ res d mint hwin hm hb hadv =>
      intro r' hr'
      rcases (advanced_of_enqueueNextBatch hadv).runs.2 r' hr' with hr' | ⟨_, _, _, _, _, rfl, _⟩
      · exact .inl (ids_complete h action res d w.runs r' hr')
      · exact .inr rfl
    | _ => exact fun r' hr' => .inl ⟨r', hr', rfl⟩
  | reap _ h =>
    cases h with
    | @exhausted w now =>
      exact fun r' hr' => .inl (ids_update (f := reapedExhausted now) (fun _ => rfl) r' hr')
    | @retryable w now =>
      exact fun r' hr' => .inl (ids_update (f := reapedRetryable) (fun _ => rfl) r' hr')
    | _ => exact fun r' hr' => .inl ⟨r', hr', rfl⟩
  | env hon h =>
    cases h with
    | deleteRuns p => simp [DrainOnly] at hon
    | _ => exact fun r' hr' => .inl ⟨r', hr', rfl⟩
  | flush hon h => simp [DrainOnly] at hon
  | trigger hon h => simp [DrainOnly] at hon
  | edit hon h => simp [DrainOnly] at hon

/-! ## The invariant -/

/-- The claims in a log: run and number. -/
def claims (log : List Event) : List (Id × ℕ) :=
  log.filterMap fun
    | .claimed run claim _ _ => some (run, claim)
    | _ => none

/-- The completions in a log: run and number of the completer's claim. -/
def completions (log : List Event) : List (Id × ℕ) :=
  log.filterMap fun
    | .completed run claim => some (run, claim)
    | _ => none

/-- **The store.** A run's attempts count its claims, and a completed claim is no longer running
under the latest number. -/
structure Fenced (S : Settings) (w : World) : Prop where
  attempts : ∀ r ∈ w.runs, r.attempts ≤ S.watchRunMaxAttempts
  claimed : ∀ e ∈ claims w.log, ∃ r ∈ w.runs, r.id = e.1 ∧ e.2 ≤ r.attempts
  claims_nodup : (claims w.log).Nodup
  completed : ∀ e ∈ completions w.log, ∃ r ∈ w.runs, r.id = e.1 ∧ e.2 ≤ r.attempts ∧
    (r.attempts = e.2 → r.state ≠ running)
  completions_nodup : (completions w.log).Nodup

/-- **A worker.** Its candidate is claimable, nothing has touched the attempts it has just written,
and it reads back its own number. -/
def Thread.Fenced (w : World) : Thread → Prop
  | .drain (.candidate _ run) => run.state ∈ claimableStates
  | .drain (.claimed _ id claim) =>
    (∃ r ∈ w.runs, r.id = id ∧ r.attempts = claim) ∧ (id, claim) ∈ claims w.log
  | .drain d => ∀ h ∈ d.holding, h.run.attempts = h.claim ∧ (h.run.id, h.claim) ∈ claims w.log
  | _ => True

theorem Thread.Fenced.candidateOk {w : World} {t : Thread} (h : t.Fenced w) : t.CandidateOk := by
  cases t with
  | drain d => cases d <;> first | exact h | trivial
  | _ => trivial

/-- What a step keeps of the invariant, before it logs anything. -/
theorem Fenced.rows {w : World} {runs' : List WatchActionRun} (hf : Fenced S w)
    (hu : IdUnique runs') (hstep : ∀ r ∈ w.runs, ∃ r' ∈ runs', RowStep S r r')
    (hback : ∀ r' ∈ runs', (∃ r ∈ w.runs, r.id = r'.id) ∨ r'.attempts = 0) :
    (∀ r ∈ runs', r.attempts ≤ S.watchRunMaxAttempts) ∧
    (∀ e ∈ claims w.log, ∃ r ∈ runs', r.id = e.1 ∧ e.2 ≤ r.attempts) ∧
    ∀ e ∈ completions w.log, ∃ r ∈ runs', r.id = e.1 ∧ e.2 ≤ r.attempts ∧
      (r.attempts = e.2 → r.state ≠ running) := by
  refine ⟨fun r' hr' => ?_, fun e he => ?_, fun e he => ?_⟩
  · rcases hback r' hr' with ⟨r, hr, hid⟩ | h0
    · obtain ⟨r'', hr'', hs⟩ := hstep r hr
      rw [← hu r'' hr'' r' hr' (hs.id.trans hid)]
      exact hs.bound (hf.attempts r hr)
    · omega
  · obtain ⟨r, hr, hid, hn⟩ := hf.claimed e he
    obtain ⟨r', hr', hs⟩ := hstep r hr
    exact ⟨r', hr', hs.id.trans hid, hn.trans hs.attempts⟩
  · obtain ⟨r, hr, hid, hn, hrun⟩ := hf.completed e he
    obtain ⟨r', hr', hs⟩ := hstep r hr
    refine ⟨r', hr', hs.id.trans hid, hn.trans hs.attempts, fun ha hc => ?_⟩
    have hat : r'.attempts = r.attempts := le_antisymm (ha ▸ hn) hs.attempts
    exact hrun (hat ▸ ha) (hs.rests hat hc)

/-- A step that logs no claim and no completion keeps the invariant. -/
theorem Fenced.of_log {w w' : World} (hf : Fenced S w) (hu : IdUnique w'.runs)
    (hstep : ∀ r ∈ w.runs, ∃ r' ∈ w'.runs, RowStep S r r')
    (hback : ∀ r' ∈ w'.runs, (∃ r ∈ w.runs, r.id = r'.id) ∨ r'.attempts = 0)
    (hlog : w'.log = w.log) : Fenced S w' := by
  obtain ⟨h₁, h₂, h₃⟩ := hf.rows hu hstep hback
  exact ⟨h₁, hlog ▸ h₂, hlog ▸ hf.claims_nodup, hlog ▸ h₃, hlog ▸ hf.completions_nodup⟩

/-- **No claim lands while another worker stands between its claim of the same run and its
read-back.** -/
def ReadsBack : StepCond World Thread := fun c _ _ t' =>
  ∀ id, t'.JustClaimed id → ∀ q, ¬ (c.thread q).JustClaimed id

/-- A claim is logged under a number of its own. -/
theorem Fenced.claim {w : World} {now : Time} {run r : WatchActionRun} (hf : Fenced S w)
    (hw : RunsOk w.runs) (hr : r ∈ w.runs) (hg : claimGuard S run r = true)
    (hc : run.state ∈ claimableStates) :
    Fenced S { w with
      runs := claimRun S run now w.runs
      log := .claimed run.id (r.attempts + 1) now w.clock :: w.log } := by
  have hw' : RunsOk (claimRun S run now w.runs) :=
    hw.update _ (f := claimedRow now) (fun _ => rfl) fun _ => rfl
  have hstep : ∀ x ∈ w.runs, ∃ x' ∈ claimRun S run now w.runs, RowStep S x x' := by
    intro x hx
    cases hgx : claimGuard S run x with
    | false => exact ⟨x, Table.mem_update_of_not hx hgx, .refl x⟩
    | true => exact ⟨_, Table.mem_update_of hx hgx, .claimed hc hgx⟩
  obtain ⟨h₁, h₂, h₃⟩ := hf.rows hw'.ids hstep
    fun x hx => .inl (ids_update (f := claimedRow now) (fun _ => rfl) x hx)
  have hid := (claimGuard_iff.mp hg).1
  refine ⟨h₁, ?_, ?_, h₃, hf.completions_nodup⟩
  · intro e he
    rcases List.mem_cons.mp he with rfl | he
    · exact ⟨_, Table.mem_update_of hr hg, hid, le_rfl⟩
    · exact h₂ e he
  · refine List.nodup_cons.mpr ⟨fun hm => ?_, hf.claims_nodup⟩
    obtain ⟨x, hx, hxid, hn⟩ := hf.claimed _ hm
    obtain rfl := hw.ids x hx r hr (hxid.trans hid.symm)
    exact absurd hn (Nat.not_succ_le_self _)

/-- The row a winning completion writes is still running under the completer's claim. -/
theorem Holding.row_of_wins {h : Holding} {runs : List WatchActionRun}
    (hwin : completeWins h.run runs = true) (hn : h.run.attempts = h.claim) :
    ∃ r ∈ runs, completeGuard h.run r = true ∧ r.id = h.run.id ∧ r.state = running ∧
      r.attempts = h.claim := by
  obtain ⟨r, hr, hg⟩ := List.any_eq_true.mp hwin
  obtain ⟨hid, hs, ha⟩ := completeGuard_iff.mp hg
  exact ⟨r, hr, hg, hid, hs, ha.trans hn⟩

/-- A completion is logged under a claim that had not completed. -/
theorem Fenced.commit {w w' : World} {h : Holding} {action succ : Option WatchAction}
    {res : ActionResult} {d : Option Id} {mint : Id → Id} (hf : Fenced S w) (hw : RunsOk w.runs)
    (hw' : RunsOk w'.runs) (hn : h.run.attempts = h.claim)
    (hwin : completeWins h.run w.runs = true)
    (hstep : ∀ r ∈ w.runs, ∃ r' ∈ w'.runs, RowStep S r r')
    (hback : ∀ r' ∈ w'.runs, (∃ r ∈ w.runs, r.id = r'.id) ∨ r'.attempts = 0)
    (ha : Advanced R mint h.run.accountId [h.run] succ h.now
      { w with
        runs := h.complete S action res d w.runs
        log := .completed h.run.id h.claim :: w.log } w') : Fenced S w' := by
  obtain ⟨h₁, h₂, h₃⟩ := hf.rows hw'.ids hstep hback
  obtain ⟨r, hr, hg, hid, hs, hat⟩ := h.row_of_wins hwin hn
  have hlog : w'.log = .completed h.run.id h.claim :: w.log := by rw [ha.frame]
  have hclaims : claims w'.log = claims w.log := by rw [hlog]; rfl
  have hcompl : completions w'.log = (h.run.id, h.claim) :: completions w.log := by rw [hlog]; rfl
  refine ⟨h₁, hclaims ▸ h₂, hclaims ▸ hf.claims_nodup, ?_, ?_⟩
  · rw [hcompl]
    intro e he
    rcases List.mem_cons.mp he with rfl | he
    · exact ⟨_, ha.runs.1 (Table.mem_update_of hr hg), hid, hat.ge,
        fun _ => ne_running_of_outcome res.isOutcome⟩
    · exact h₃ e he
  · rw [hcompl]
    refine List.nodup_cons.mpr ⟨fun hm => ?_, hf.completions_nodup⟩
    obtain ⟨x, hx, hxid, -, hxs⟩ := hf.completed _ hm
    obtain rfl := hw.ids x hx r hr (hxid.trans hid.symm)
    exact hxs hat hs

/-- **A step of a worker keeps its own part of the invariant and the store's.** -/
theorem Fenced.step {t t' : Thread} {w w' : World} (hf : Fenced S w) (ht : t.Fenced w)
    (hw : RunsOk w.runs) (hw' : RunsOk w'.runs) (h : System S E R DrainOnly t w w' t') :
    Fenced S w' ∧ t'.Fenced w' := by
  have hstep : ∀ r ∈ w.runs, ∃ r' ∈ w'.runs, RowStep S r r' := fun r hr =>
    let ⟨r', hr', hs, _⟩ := h.rowStep ht.candidateOk r hr
    ⟨r', hr', hs⟩
  have hback := h.rowBack
  have hcand := h.candidateOk
  cases h with
  | drain _ h =>
    cases h with
    | start => exact ⟨hf, by simp [Thread.Fenced, Drain.holding]⟩
    | candidate => exact ⟨hf, hcand⟩
    | @claim w now run r hr hg =>
      refine ⟨hf.claim hw hr hg ht, ⟨_, Table.mem_update_of hr hg, (claimGuard_iff.mp hg).1, rfl⟩, ?_⟩
      exact List.mem_cons_self
    | skip => exact ⟨hf, by simp [Thread.Fenced, Drain.holding]⟩
    | @refresh w now id claim r hr hid =>
      obtain ⟨⟨x, hx, hxid, ha⟩, hlog⟩ := ht
      obtain rfl := hw.ids x hx r hr (hxid.trans hid.symm)
      refine ⟨hf, ?_⟩
      simp only [Thread.Fenced, Drain.holding, Option.mem_def, Option.some.injEq, forall_eq']
      exact ⟨ha, hid ▸ hlog⟩
    | resolve => exact ⟨hf, ht⟩
    | judge => exact ⟨hf, ht⟩
    | lookup => exact ⟨hf, ht⟩
    | commit hwin hm hb hadv =>
      refine ⟨hf.commit hw hw' (ht _ rfl).1 hwin hstep hback (advanced_of_enqueueNextBatch hadv), ?_⟩
      simp [Thread.Fenced, Drain.holding]
    | lose => exact ⟨hf, by simp [Thread.Fenced, Drain.holding]⟩
    | crash => exact ⟨hf, by simp [Thread.Fenced, Drain.holding]⟩
  | reap _ h =>
    refine ⟨?_, trivial⟩
    cases h <;> exact hf.of_log hw'.ids hstep hback rfl
  | env hon h =>
    refine ⟨?_, trivial⟩
    cases h <;> exact hf.of_log hw'.ids hstep hback rfl
  | flush hon h => simp [DrainOnly] at hon
  | trigger hon h => simp [DrainOnly] at hon
  | edit hon h => simp [DrainOnly] at hon

/-- The log only grows. -/
theorem System.claims_subset {t t' : Thread} {w w' : World}
    (h : System S E R DrainOnly t w w' t') : claims w.log ⊆ claims w'.log := by
  cases h with
  | drain _ h =>
    cases h with
    | claim => exact List.subset_cons_self _ _
    | commit hwin hm hb hadv =>
      rw [(advanced_of_enqueueNextBatch hadv).frame]
      exact fun _ h => h
    | _ => exact fun _ h => h
  | reap _ h => cases h <;> exact fun _ h => h
  | env hon h => cases h <;> exact fun _ h => h
  | flush hon h => simp [DrainOnly] at hon
  | trigger hon h => simp [DrainOnly] at hon
  | edit hon h => simp [DrainOnly] at hon

/-- **A step of one worker keeps the others' part**: no claim lands before a read-back. -/
theorem Thread.Fenced.other {t t' u : Thread} {w w' : World} (hu : u.Fenced w)
    (ht : t.Fenced w) (h : System S E R DrainOnly t w w' t')
    (hok : ∀ id, t'.JustClaimed id → ¬ u.JustClaimed id) : u.Fenced w' := by
  have hsub := h.claims_subset
  cases u with
  | drain d =>
    cases d with
    | claimed now id claim =>
      obtain ⟨⟨r, hr, hid, ha⟩, hlog⟩ := hu
      obtain ⟨r', hr', hs, hsame | hj⟩ := h.rowStep ht.candidateOk r hr
      · exact ⟨⟨r', hr', hs.id.trans hid, hsame.trans ha⟩, hsub hlog⟩
      · exact absurd ⟨now, claim, rfl⟩ (hok id (hid ▸ hj))
    | candidate => exact hu
    | _ => exact fun k hk => ⟨(hu k hk).1, hsub (hu k hk).2⟩
  | _ => trivial

/-! ## Every run -/

/-- A store in order whose runs are within the cap. -/
structure Unclaimed (S : Settings) (w : World) : Prop extends InOrder w where
  attempts : ∀ r ∈ w.runs, r.attempts ≤ S.watchRunMaxAttempts

theorem Unclaimed.fenced {w : World} (h : Unclaimed S w) : Fenced S w :=
  ⟨h.attempts, by simp [h.log, claims], by simp [h.log, claims], by simp [h.log, completions],
    by simp [h.log, completions]⟩

theorem Thread.Idle.fenced {t : Thread} (h : t.Idle) (w : World) : t.Fenced w := by
  cases t with
  | drain d =>
    obtain rfl : d = .idle := h
    simp [Thread.Fenced, Drain.holding]
  | _ => trivial

/-- **The invariant of a run.** -/
theorem reach_fenced {c : Conf World Thread}
    (h : ReachIn (System S E R DrainOnly) (Init (Unclaimed S)) ReadsBack c) :
    Fenced S c.shared ∧ ∀ p, (c.thread p).Fenced c.shared := by
  have hK : ∀ c, ReachIn (System S E R DrainOnly) (Init (Unclaimed S)) ReadsBack c →
      RunsOk c.shared.runs := fun c h => (reach_runsOk (fun _ hu => hu.runs) h).1
  refine (h.strengthen hK).each (G := Fenced S) (L := fun w t => t.Fenced w) ?_ ?_ ?_
  · exact fun c ⟨hu, hidle⟩ => ⟨hu.fenced, fun p => (hidle p).fenced _⟩
  · exact fun hf hL hs ⟨_, hw, hw'⟩ => hf.step (hL _) hw hw' hs
  · exact fun hf hL hs ⟨hok, _, _⟩ _ => (hL _).other (hL _) hs fun id hj => hok id hj _

/-- A later state of a run: no run goes away, its attempts never decrease, and a clean result is
final. -/
theorem later_rows {c c' : Conf World Thread} {ok : StepCond World Thread}
    (h : ReachIn (System S E R DrainOnly) (· = c) ok c') (hc : ∀ p, (c.thread p).CandidateOk) :
    (∀ p, (c'.thread p).CandidateOk) ∧ ∀ r ∈ c.shared.runs, ∃ r' ∈ c'.shared.runs,
      r'.id = r.id ∧ r.attempts ≤ r'.attempts ∧ (r.state ∈ terminalStates → r' = r) := by
  have hi := h.each (G := fun w => ∀ r ∈ c.shared.runs, ∃ r' ∈ w.runs,
      r'.id = r.id ∧ r.attempts ≤ r'.attempts ∧ (r.state ∈ terminalStates → r' = r))
    (L := fun _ t => t.CandidateOk) ?_ ?_ fun _ hL _ _ _ => hL _
  · exact ⟨hi.2, hi.1⟩
  · rintro c rfl
    exact ⟨fun r hr => ⟨r, hr, rfl, le_rfl, fun _ => rfl⟩, hc⟩
  · intro c₁ p w' t' hG hL hs _
    refine ⟨fun r hr => ?_, hs.candidateOk⟩
    obtain ⟨r₁, hr₁, hid, hat, hterm⟩ := hG r hr
    obtain ⟨r₂, hr₂, hrow, -⟩ := hs.rowStep (hL p) r₁ hr₁
    refine ⟨r₂, hr₂, hrow.id.trans hid, hat.trans hrow.attempts, fun ht => ?_⟩
    obtain rfl := hterm ht
    exact hrow.terminal ht

/-- **Claims fence completions.** In every run in which no claim lands between a claim of the same
run and its read-back: claims have numbers of their own, and a claim completes at most once; a
completer writes only while its claim is the latest and still running, and changes nothing
otherwise; attempts stay within the cap; and from then on attempts never decrease and a clean
result is final. -/
theorem completions_fenced {c : Conf World Thread}
    (h : ReachIn (System S E R DrainOnly) (Init (Unclaimed S)) ReadsBack c) :
    (claims c.shared.log).Nodup ∧ (completions c.shared.log).Nodup ∧
    (∀ p k action res d succ w' t', c.thread p = .drain (.advancing k action res d succ) →
      System S E R DrainOnly (c.thread p) c.shared w' t' →
      (k.run.id, k.claim) ∈ claims c.shared.log ∧
      ((∃ r ∈ c.shared.runs, r.id = k.run.id ∧ r.state = running ∧ r.attempts = k.claim) ∨
        w' = c.shared)) ∧
    (∀ r ∈ c.shared.runs, r.attempts ≤ S.watchRunMaxAttempts) ∧
    ∀ c', ReachIn (System S E R DrainOnly) (· = c) ReadsBack c' → ∀ r ∈ c.shared.runs,
      ∃ r' ∈ c'.shared.runs, r'.id = r.id ∧ r.attempts ≤ r'.attempts ∧
        (r.state ∈ terminalStates → r' = r) := by
  obtain ⟨hf, hL⟩ := reach_fenced h
  refine ⟨hf.claims_nodup, hf.completions_nodup, ?_, hf.attempts, fun c' hc' =>
    (later_rows hc' fun p => (hL p).candidateOk).2⟩
  intro p k action res d succ w' t' hp hs
  have hk := hL p
  rw [hp] at hs hk
  refine ⟨(hk k rfl).2, ?_⟩
  cases hs with
  | drain _ hs =>
    cases hs with
    | commit hwin =>
      obtain ⟨r, hr, -, hid, hrun, ha⟩ := k.row_of_wins hwin (hk k rfl).1
      exact .inl ⟨r, hr, hid, hrun, ha⟩
    | lose => exact .inr rfl
    | crash => exact .inr rfl

/-! ## With and without the condition -/

/-- One pending run of an instant action. -/
def oneRun : World where
  runs := [sampleRun 1 1 1]
  actions := [sampleAction 1 instantConfig 0]
  items := [sampleItem 1]

/-- Two workers and a reaper. -/
def twoWorkers : ℕ → Thread
  | 0 | 1 => .drain .idle
  | 2 => .reap .idle
  | _ => .env

theorem init_oneRun : Init (Unclaimed {}) ⟨oneRun, twoWorkers⟩ := by
  refine ⟨⟨⟨⟨by simp [IdUnique, oneRun], by decide⟩, rfl⟩, by decide⟩, fun p => ?_⟩
  rcases p with _ | _ | _ | p
  · rfl
  · rfl
  · rfl
  · trivial

/-- A worker claims the run, reads it back and gates it: one completion, under the latest claim. -/
theorem completions_fenced_gated : ∃ c : Conf World Thread,
    c.shared.runs.map (·.state) = [gated] ∧ c.shared.log = [.completed 1 1, .claimed 1 1 0 0] ∧
      (completions c.shared.log).Nodup := by
  have noClaim {c : Conf World Thread} {p : ℕ} {w : World} {t : Thread}
      (h : ∀ id, ¬ t.JustClaimed id) : ReadsBack c p w t := fun id hj => absurd hj (h id)
  have h₀ : ReachIn (SampleSystem DrainOnly) (Init (Unclaimed {})) ReadsBack ⟨oneRun, twoWorkers⟩ :=
    .init init_oneRun
  have h₁ := h₀.next 0 (.drain (.inl rfl) .start) rfl rfl (noClaim nofun)
  have h₂ := h₁.next 0 (.drain (.inl rfl) (.candidate (by decide : sampleRun 1 1 1 ∈ _))) rfl rfl
    (noClaim nofun)
  have h₃ := h₂.next 0 (.drain (.inl rfl) (.claim (by decide : sampleRun 1 1 1 ∈ _) (by decide)))
    rfl rfl fun id _ q => by
      match q with
      | 0 | 1 | 2 => nofun
      | _ + 3 => nofun
  have h₄ := h₃.next 0 (.drain (.inl rfl) (.refresh
    (by decide : claimedRow 0 (sampleRun 1 1 1) ∈ _) rfl)) rfl rfl (noClaim nofun)
  have h₅ := h₄.next 0 (.drain (.inl rfl) .resolve) rfl rfl (noClaim nofun)
  have h₆ := h₅.next 0 (.drain (.inl rfl)
    (.judge (.returns (by decide) (by decide) { state := gated } none))) rfl rfl (noClaim nofun)
  have h₇ := h₆.next 0 (.drain (.inl rfl) .lookup) rfl rfl (noClaim nofun)
  have h₈ := h₇.next 0 (.drain (.inl rfl) (.commit (by decide)
    (.add (n := 10) (by decide)) (by rintro ⟨_, h, _⟩; cases h) rfl)) rfl rfl
    (noClaim nofun)
  exact ⟨_, rfl, rfl, (completions_fenced h₈).2.1⟩

/-- **A worker completes under a newer claim.** Worker 0 claims the run and stalls before it reads
the run back; the run goes stale, is reaped and claimed again by worker 1; worker 0 then reads
worker 1's attempts and its completion wins. -/
theorem stale_claim_completes : ∃ (c : Conf World Thread) (k : Holding)
    (action succ : Option WatchAction) (res : ActionResult) (d : Option Id) (w' : World)
    (t' : Thread),
    Reach (SampleSystem DrainOnly) (Init (Unclaimed {})) c ∧
    c.thread 0 = .drain (.advancing k action res d succ) ∧
    SampleSystem DrainOnly (c.thread 0) c.shared w' t' ∧
    (∀ r ∈ c.shared.runs, r.id = k.run.id → k.claim < r.attempts) ∧ w'.runs ≠ c.shared.runs := by
  let r₁ := claimedRow 0 (sampleRun 1 1 1)
  let r₂ := reapedRetryable r₁
  let r₃ := claimedRow 601 r₂
  have h₀ : Reach (SampleSystem DrainOnly) (Init (Unclaimed {})) ⟨oneRun, twoWorkers⟩ :=
    .init init_oneRun
  have h₁ := Reach.next h₀ 0 (.drain (.inl rfl) .start) rfl rfl
  have h₂ := Reach.next h₁ 0
    (.drain (.inl rfl) (.candidate (by decide : sampleRun 1 1 1 ∈ _))) rfl rfl
  have h₃ := Reach.next h₂ 0
    (.drain (.inl rfl) (.claim (by decide : sampleRun 1 1 1 ∈ _) (by decide))) rfl rfl
  -- the run goes stale and the reaper resets it
  have h₄ := Reach.next h₃ 3 (.env (.inr (.inr rfl)) (.clock 601)) rfl rfl
  have h₅ := Reach.next h₄ 2 (.reap (.inr (.inl rfl)) .start) rfl rfl
  have h₆ := Reach.next h₅ 2 (.reap (.inr (.inl rfl)) .exhausted) rfl rfl
  have h₇ := Reach.next h₆ 2 (.reap (.inr (.inl rfl)) .retryable) rfl rfl
  -- worker 1 claims it again
  have h₈ := Reach.next h₇ 1 (.drain (.inl rfl) .start) rfl rfl
  have h₉ := Reach.next h₈ 1 (.drain (.inl rfl) (.candidate (by decide : r₂ ∈ _))) rfl rfl
  have h₁₀ := Reach.next h₉ 1
    (.drain (.inl rfl) (.claim (by decide : r₂ ∈ _) (by decide))) rfl rfl
  -- worker 0 reads worker 1's attempts back
  have h₁₁ := Reach.next h₁₀ 0 (.drain (.inl rfl) (.refresh (by decide : r₃ ∈ _) rfl)) rfl rfl
  have h₁₂ := Reach.next h₁₁ 0 (.drain (.inl rfl) .resolve) rfl rfl
  have h₁₃ := Reach.next h₁₂ 0 (.drain (.inl rfl)
    (.judge (.returns (by decide) (by decide) { state := gated } none))) rfl rfl
  have h₁₄ := Reach.next h₁₃ 0 (.drain (.inl rfl) .lookup) rfl rfl
  refine ⟨_, ⟨0, r₃, 1⟩, some (sampleAction 1 instantConfig 0), none, { state := gated }, none,
    { oneRun with
      clock := 601
      runs := [completedRow { state := gated } (some 0) none (some "log") r₃]
      log := [.completed 1 1, .claimed 1 2 601 601, .claimed 1 1 0 0] }, .drain (.started 0),
    h₁₄, rfl, .drain (.inl rfl) (.commit (by decide) (.add (n := 10) (by decide)) ?_ rfl),
    ?_, ?_⟩
  · rintro ⟨_, h, _⟩
    cases h
  · decide
  · decide

end OpenMagpie
