import OpenMagpie.Watches.BackfillPass

/-!
# The delete-once marker

A replacing job deletes stale runs, stamps `replace_deleted_at` on its row and enqueues. A worker
decides from its copy of the row, read when it claimed, and it goes on when its stamp misses.

* `lineage`: the runs that a job's enqueues created, and the runs downstream of them.
* `DeletesOnce`: no delete of the job removes a run of its lineage, or any run after its enqueues.
* `CopyCurrent`: when a worker deletes or enqueues, its copy and the row agree on the marker.
* **`replace_deletes_once`**: in every run in which the workers' copies are current, every job
  deletes once.
* **`regenerated_run_deleted`**: a reaped worker walks on after its job's second attempt has
  enqueued, and deletes the run that the drain has completed since.
-/

set_option autoImplicit false

namespace OpenMagpie

open Interleave WatchActionBackfillGlobal

variable {C : Type} {S : Settings} {E : Executors} {R : Registry C} {on : Component → Prop}

/-! ## The law -/

/-- The job that the step deletes runs for. -/
def BackfillThread.deletes : BackfillThread → BackfillThread → Option WatchActionBackfill
  | .worker (.walking a _ _), .worker (.walked ..) => some a.job
  | _, _ => none

/-- The job that the step enqueues runs for. -/
def BackfillThread.enqueues : BackfillThread → BackfillThread → Option WatchActionBackfill
  | .worker (.inserting a ..), .worker (.streaming ..) => some a.job
  | .worker (.inserting a ..), .worker (.finishing ..) => some a.job
  | _, _ => none

/-- The step is a delete of job `J`. -/
def deletesFor (J : Id) (m : Move BackfillStore BackfillThread) : Bool :=
  (m.prev.deletes m.next).any fun j => decide (j.id = J)

/-- The step is an enqueue of job `J`. -/
def enqueuesFor (J : Id) (m : Move BackfillStore BackfillThread) : Bool :=
  (m.prev.enqueues m.next).any fun j => decide (j.id = J)

/-- The runs that the step creates. -/
def created (m : Move BackfillStore BackfillThread) : List WatchActionRun :=
  m.shared.runs.filter fun r => decide (r.id ∉ m.before.shared.runs.map (·.id))

/-- The runs that a delete removes. -/
def removed (m : Move BackfillStore BackfillThread) : List WatchActionRun :=
  m.before.shared.runs.filter fun r => decide (r ∉ m.shared.runs)

/-- **The lineage of a job**: the ids of the runs that its enqueues created, and of the runs that an
advance created after one of the lineage. -/
def lineage (J : Id) : List (Move BackfillStore BackfillThread) → List Id
  | [] => []
  | m :: tr => ((created m).filter fun r =>
      enqueuesFor J m || r.priorRunId.any fun i => decide (i ∈ lineage J tr)).map (·.id) ++
        lineage J tr

/-- **The law of the marker**: a run that a delete of the job removes is not of the job's lineage,
and the job has not enqueued yet. -/
def DeletesOnce (J : Id) : List (Move BackfillStore BackfillThread) → Prop
  | [] => True
  | m :: tr => DeletesOnce J tr ∧ (deletesFor J m = true → ∀ r ∈ removed m,
      r.id ∉ lineage J tr ∧ tr.any (enqueuesFor J) = false)

/-- A job that has not enqueued has no lineage. -/
theorem lineage_eq_nil {J : Id} {tr : List (Move BackfillStore BackfillThread)}
    (h : tr.any (enqueuesFor J) = false) : lineage J tr = [] := by
  induction tr with
  | nil => rfl
  | cons m tr ih =>
    rw [List.any_cons, Bool.or_eq_false_iff] at h
    rw [lineage, ih h.2, h.1]
    simp

/-- What an enqueue creates is of the lineage. -/
theorem mem_lineage_cons {J : Id} {m : Move BackfillStore BackfillThread}
    {tr : List (Move BackfillStore BackfillThread)} {r : WatchActionRun} (hr : r ∈ created m)
    (he : enqueuesFor J m = true) : r.id ∈ lineage J (m :: tr) :=
  List.mem_append_left _ (List.mem_map_of_mem
    (List.mem_filter.mpr ⟨hr, Bool.or_eq_true_iff.mpr (.inl he)⟩))

theorem lineage_subset (J : Id) (l tr : List (Move BackfillStore BackfillThread)) :
    lineage J tr ⊆ lineage J (l ++ tr) := by
  induction l with
  | nil => exact fun _ h => h
  | cons m l ih => exact fun i hi => List.mem_append_right _ (ih hi)

/-! ## The condition -/

/-- The row of job `J` has its marker. -/
def Marked (jobs : List WatchActionBackfill) (J : Id) : Prop :=
  ∃ j ∈ jobs, j.id = J ∧ j.replaceDeletedAt.isSome

/-- When a worker deletes or enqueues for a replacing job, its copy and the row agree on whether
the marker is set. -/
def CopyCurrent : StepCond BackfillStore BackfillThread := fun c p _ t =>
  ∀ job, (c.thread p).deletes t = some job ∨ (c.thread p).enqueues t = some job →
    job.replace = true → (Marked c.shared.backfills job.id ↔ job.replaceDeletedAt.isSome)

/-! ## What a worker knows -/

/-- The copy of its job that a worker has read. -/
def Backfill.copy : Backfill → Option WatchActionBackfill
  | .held _ job | .targeted _ job _ | .watched _ job .. | .sourced _ job .. | .counted _ job ..
  | .failing _ job _ => some job
  | .walking a .. | .walked a .. | .stamping a _ | .streaming a .. | .chunking a .. | .inserting a ..
  | .finishing a .. => some a.job
  | _ => none

/-- What the program point says about the copy: the walk is of a replacing job without a marker, and
a replacing job has one from the stamp on. -/
def Backfill.MarkerOk : Backfill → Prop
  | .walking a .. | .walked a .. | .stamping a _ =>
    a.job.replace = true ∧ a.job.replaceDeletedAt = none
  | .streaming a .. | .chunking a .. | .inserting a .. =>
    a.job.replace = true → a.job.replaceDeletedAt.isSome
  | _ => True

/-- The job is in the table, as replacing as it is here. -/
def Known (jobs : List WatchActionBackfill) (job : WatchActionBackfill) : Prop :=
  ∃ j ∈ jobs, j.id = job.id ∧ j.replace = job.replace

/-- What every thread knows: its program point fits its copy, which is of a row of the table. -/
def BackfillThread.Knows (jobs : List WatchActionBackfill) : BackfillThread → Prop
  | .worker b => b.MarkerOk ∧ ∀ job ∈ b.copy, Known jobs job
  | _ => True

theorem Known.kept {jobs jobs' : List WatchActionBackfill} {job : WatchActionBackfill}
    (h : Known jobs job) (hk : JobsKept jobs jobs') : Known jobs' job := by
  obtain ⟨j, hj, hid, hr⟩ := h
  obtain ⟨j', hj', hid', hr', -⟩ := hk.old j hj
  exact ⟨j', hj', hid'.trans hid, hr'.trans hr⟩

theorem BackfillThread.Knows.kept {jobs jobs' : List WatchActionBackfill} {t : BackfillThread}
    (h : t.Knows jobs) (hk : JobsKept jobs jobs') : t.Knows jobs' := by
  cases t with
  | worker b => exact ⟨h.1, fun job hj => (h.2 job hj).kept hk⟩
  | _ => trivial

theorem BackfillThread.Idle.knows {t : BackfillThread} (h : t.Idle)
    (jobs : List WatchActionBackfill) : t.Knows jobs := by
  cases t with
  | worker b =>
    obtain rfl : b = .idle := h
    exact ⟨trivial, fun _ hj => by cases hj⟩
  | _ => trivial

namespace BackfillAttempt

variable (a : BackfillAttempt) (deleted enqueued : ℕ)

@[simp] theorem deletePhase_copy : a.deletePhase.copy = some a.job := by
  unfold deletePhase
  split_ifs <;> rfl

theorem deletePhase_markerOk : a.deletePhase.MarkerOk := by
  unfold deletePhase
  split_ifs with hr hm
  · exact fun h => absurd (hr.symm.trans h) Bool.false_ne_true
  · exact fun _ => hm
  · exact ⟨Bool.eq_true_of_not_eq_false hr, Option.not_isSome_iff_eq_none.mp hm⟩

@[simp] theorem pulled_copy (pull : Pull) (page : List Id) :
    (a.pulled deleted enqueued pull page).copy = some a.job := by
  unfold pulled
  cases page.getLast? with
  | none => dsimp only; split_ifs <;> rfl
  | some last => dsimp only; split_ifs <;> rfl

theorem pulled_markerOk (pull : Pull) (page : List Id)
    (h : a.job.replace = true → a.job.replaceDeletedAt.isSome) :
    (a.pulled deleted enqueued pull page).MarkerOk := by
  unfold pulled
  cases page.getLast? with
  | none =>
    dsimp only
    split_ifs
    · trivial
    · exact h
  | some last => dsimp only; split_ifs <;> exact h

@[simp] theorem resumed_copy (rest : Option Pull) :
    (a.resumed deleted rest enqueued).copy = some a.job := by
  cases rest <;> rfl

theorem resumed_markerOk (rest : Option Pull)
    (h : a.job.replace = true → a.job.replaceDeletedAt.isSome) :
    (a.resumed deleted rest enqueued).MarkerOk := by
  cases rest with
  | none => trivial
  | some pull => exact h

end BackfillAttempt

/-- A step keeps the worker's copy up to the marker, or reads a row. -/
theorem Backfill.Step.copy {b b' : Backfill} {s s' : BackfillStore} (h : b.Step S s s' b')
    {job : WatchActionBackfill} (hj : job ∈ b'.copy) :
    (∃ j ∈ b.copy, j.id = job.id ∧ j.replace = job.replace) ∨ job ∈ s.backfills := by
  have same {j : WatchActionBackfill} {b' : Backfill} (hb : b.copy = some j)
      (hb' : b'.copy = some j) (hj : job ∈ b'.copy) :
      (∃ j ∈ b.copy, j.id = job.id ∧ j.replace = job.replace) ∨ job ∈ s.backfills := by
    obtain rfl := Option.some.inj (hb'.symm.trans hj)
    exact .inl ⟨_, hb, rfl, rfl⟩
  cases h with
  | refresh hmem =>
    obtain rfl := Option.some.inj hj
    exact .inr hmem
  | stamp =>
    obtain rfl := Option.some.inj hj
    exact .inl ⟨_, rfl, rfl, rfl⟩
  | countHead => exact same rfl (BackfillAttempt.deletePhase_copy _) hj
  | countExisting => exact same rfl (BackfillAttempt.deletePhase_copy _) hj
  | page => exact same rfl (BackfillAttempt.pulled_copy ..) hj
  | covered => exact same rfl (BackfillAttempt.resumed_copy ..) hj
  | insert => exact same rfl (BackfillAttempt.resumed_copy ..) hj
  | target | targetGone | watch | watchGone | feeds | predecessor | countSucceeded | delete | next
  | tail | chunk => exact same rfl rfl hj
  | start | candidate | claim | skip | finish | fail | crash => cases hj

/-- **A worker's program point fits its copy.** -/
theorem Backfill.Step.markerOk {b b' : Backfill} {s s' : BackfillStore} (h : b.Step S s s' b')
    (hb : b.MarkerOk) : b'.MarkerOk := by
  cases h with
  | countHead => exact BackfillAttempt.deletePhase_markerOk _
  | countExisting => exact BackfillAttempt.deletePhase_markerOk _
  | delete | next | tail => exact hb
  | stamp => exact fun _ => rfl
  | page => exact BackfillAttempt.pulled_markerOk _ _ _ _ _ hb
  | covered => exact BackfillAttempt.resumed_markerOk _ _ _ _ hb
  | chunk => exact hb
  | insert => exact BackfillAttempt.resumed_markerOk _ _ _ _ hb
  | _ => trivial

theorem BackfillSystem.knows {t t' : BackfillThread} {s s' : BackfillStore}
    (h : BackfillSystem S E R on t s s' t') (ht : t.Knows s.backfills) :
    t'.Knows s'.backfills := by
  have hk := h.jobsKept
  cases h with
  | worker h =>
    refine ⟨h.markerOk ht.1, fun job hj => ?_⟩
    refine Known.kept ?_ hk
    rcases h.copy hj with ⟨j, hjc, hid, hr⟩ | hmem
    · obtain ⟨i, hi, hi', hr'⟩ := ht.2 j hjc
      exact ⟨i, hi, hi'.trans hid, hr'.trans hr⟩
    · exact ⟨job, hmem, rfl, rfl⟩
  | _ => trivial

/-! ## Runs -/

/-- A replacing job that has enqueued has its marker. -/
def MarkedFirst (tr : List (Move BackfillStore BackfillThread)) (jobs : List WatchActionBackfill) :
    Prop :=
  ∀ J, tr.any (enqueuesFor J) = true →
    ∃ j ∈ jobs, j.id = J ∧ (j.replace = true → j.replaceDeletedAt.isSome)

theorem BackfillThread.of_deletes {t t' : BackfillThread} {job : WatchActionBackfill}
    (h : t.deletes t' = some job) :
    ∃ a action n, t = .worker (.walking a action n) ∧ a.job = job := by
  unfold BackfillThread.deletes at h
  split at h
  · exact ⟨_, _, _, rfl, Option.some.inj h⟩
  · cases h

theorem BackfillThread.of_enqueues {t t' : BackfillThread} {job : WatchActionBackfill}
    (h : t.enqueues t' = some job) :
    ∃ a n items rest k, t = .worker (.inserting a n items rest k) ∧ a.job = job := by
  unfold BackfillThread.enqueues at h
  split at h
  · exact ⟨_, _, _, _, _, rfl, Option.some.inj h⟩
  · exact ⟨_, _, _, _, _, rfl, Option.some.inj h⟩
  · cases h

section Step

variable {tr : List (Move BackfillStore BackfillThread)} {c : Conf BackfillStore BackfillThread}
  {p : ℕ} {s : BackfillStore} {t : BackfillThread}

/-- A job's row is the one that is marked. -/
theorem Marked.of_mem {jobs : List WatchActionBackfill} (h : (jobs.map (·.id)).Nodup)
    {j : WatchActionBackfill} (hj : j ∈ jobs) (hm : Marked jobs j.id) :
    j.replaceDeletedAt.isSome := by
  obtain ⟨j', hj', hid, hm⟩ := hm
  obtain rfl : j' = j := Table.eq_of_key h hj' hj hid
  exact hm

/-- **One step keeps the markers first.** -/
theorem MarkedFirst.step (h : MarkedFirst tr c.shared.backfills)
    (hn : (c.shared.backfills.map (·.id)).Nodup) (hk : (c.thread p).Knows c.shared.backfills)
    (hc : CopyCurrent c p s t) (hj : JobsKept c.shared.backfills s.backfills) :
    MarkedFirst (⟨c, p, s, t⟩ :: tr) s.backfills := by
  intro J hany
  have hrow : ∃ j ∈ c.shared.backfills, j.id = J ∧ (j.replace = true → j.replaceDeletedAt.isSome) := by
    rcases Bool.or_eq_true_iff.mp (List.any_cons ▸ hany) with hm | hold
    · -- an enqueue, under a current copy
      obtain ⟨job, hjob, hJ⟩ := (Option.any_eq_true _ _).mp hm
      obtain rfl := of_decide_eq_true hJ
      obtain ⟨a, n, items, rest, k, hthr, rfl⟩ := BackfillThread.of_enqueues hjob
      rw [Move.prev] at hthr
      rw [hthr] at hk
      obtain ⟨hok, hknown⟩ := hk
      obtain ⟨j, hmem, hid, hr⟩ := hknown a.job rfl
      refine ⟨j, hmem, hid, fun hrep => ?_⟩
      have hrep' : a.job.replace = true := hr ▸ hrep
      have hmark := (hc a.job (.inr hjob) hrep').mpr (hok hrep')
      exact Marked.of_mem hn hmem (hid ▸ hmark)
    · exact h J hold
  obtain ⟨j, hmem, rfl, hm⟩ := hrow
  obtain ⟨j', hmem', hid, hr, hm'⟩ := hj.old j hmem
  exact ⟨j', hmem', hid, fun hrep => hm' (hm (hr ▸ hrep))⟩

/-- **A delete comes before the enqueues of its job.** -/
theorem MarkedFirst.not_enqueued {J : Id} (h : MarkedFirst tr c.shared.backfills)
    (hn : (c.shared.backfills.map (·.id)).Nodup) (hk : (c.thread p).Knows c.shared.backfills)
    (hc : CopyCurrent c p s t) (hd : deletesFor J ⟨c, p, s, t⟩ = true) :
    tr.any (enqueuesFor J) = false := by
  obtain ⟨job, hjob, hJ⟩ := (Option.any_eq_true _ _).mp hd
  obtain rfl := of_decide_eq_true hJ
  obtain ⟨a, action, n, hthr, rfl⟩ := BackfillThread.of_deletes hjob
  rw [Move.prev] at hthr
  rw [hthr] at hk
  obtain ⟨⟨hrep, hnone⟩, hknown⟩ := hk
  obtain ⟨j, hmem, hid, hr⟩ := hknown a.job rfl
  refine Bool.eq_false_iff.mpr fun hany => ?_
  obtain ⟨j', hmem', hid', hm⟩ := h _ hany
  obtain rfl : j' = j := Table.eq_of_key hn hmem' hmem (hid'.trans hid.symm)
  have hmark : Marked c.shared.backfills a.job.id := ⟨j', hmem, hid, hm (hr.trans hrep)⟩
  have hset := (hc a.job (.inl hjob) hrep).mp hmark
  rw [hnone] at hset
  cases hset

end Step

/-- **Deletes come once.** In every run of the workers, the reapers and the other passes in which the
workers' copies are current, no delete of a job removes a run that the job has enqueued or that
follows from one, or any run after the job has enqueued. -/
theorem replace_deletes_once {tr : List (Move BackfillStore BackfillThread)}
    {c : Conf BackfillStore BackfillThread}
    (h : Run (BackfillSystem S E R on) BackfillInit CopyCurrent tr c) (J : Id) :
    DeletesOnce J tr := by
  suffices hall : (DeletesOnce J tr ∧ (c.shared.backfills.map (·.id)).Nodup ∧
      MarkedFirst tr c.shared.backfills) ∧ ∀ p, (c.thread p).Knows c.shared.backfills from hall.1.1
  refine h.each (G := fun tr s => DeletesOnce J tr ∧ (s.backfills.map (·.id)).Nodup ∧
    MarkedFirst tr s.backfills) (L := fun _ s _ t => t.Knows s.backfills) ?_ ?_ ?_
  · rintro c ⟨hn, hidle⟩
    exact ⟨⟨trivial, hn, fun _ h => absurd h Bool.false_ne_true⟩, fun p => (hidle p).knows _⟩
  · rintro tr c p s t ⟨hd, hn, hm⟩ hk hs hc
    have hj := hs.jobsKept
    refine ⟨⟨⟨hd, fun hdel r _ => ?_⟩, hj.nodup hn, hm.step hn (hk p) hc hj⟩, hs.knows (hk p)⟩
    have hno := hm.not_enqueued hn (hk p) hc hdel
    exact ⟨by rw [lineage_eq_nil hno]; exact List.not_mem_nil, hno⟩
  · rintro tr c p q s t - hk hs - -
    exact (hk q).kept hs.jobsKept

/-! ## A slow worker -/

section Sample

/-- A replacing job that re-runs the head of the watch's chain over the items since time 0. -/
def replaceJob (state : WatchActionBackfillState) (attempts : ℕ) (startedAt : Option Time)
    (error : String) : WatchActionBackfill :=
  { WatchActionBackfillService.create 1 1 1 1 none true true { occurredSince := some 0 } 0 with
    state := state, attempts := attempts, startedAt := startedAt, error := error }

/-- An old output of the head. -/
def staleRun : WatchActionRun :=
  { sampleRun 5 1 1 with state := .succeeded, completedAt := some 0 }

/-- The job over an instant head with one item. -/
def queueStore (clock : Time) (job : WatchActionBackfill) (runs : List WatchActionRun) :
    BackfillStore :=
  { watchedDigest with
    clock := clock
    actions := [sampleAction 1 instantConfig 0]
    items := [{ sampleItem 1 with occurredAt := some 0 }]
    runs := runs
    backfills := [job] }

/-- The attempt of the `n`th claim, at time `now`. -/
def replaceAttempt (now : Time) (n : ℕ) (error : String) : BackfillAttempt :=
  ⟨now, replaceJob .running n (some now) error, sampleAction 1 instantConfig 0, ⟨1, 1, .head [1]⟩⟩

/-- The run that an attempt enqueues at time `now`. -/
def redoneRun (now : Time) : WatchActionRun := newRun 11 1 1 1 "log" 1 now none

/-- Two workers, a reaper and a drain worker. -/
def backfillThreads : ℕ → BackfillThread
  | 0 => .worker .idle
  | 1 => .worker .idle
  | 2 => .reap .idle
  | 3 => .pass (.drain .idle)
  | _ => .pass .env

/-- The components of the other passes that take steps. -/
def DrainClock (k : Component) : Prop := k = .drain ∨ k = .clock

/-- The small deployment with the job queue. -/
abbrev SampleBackfills : ThreadRel BackfillStore BackfillThread :=
  BackfillSystem {} sampleExecutors sampleRegistry DrainClock

/-- The start: the job is requested, and its item has an old output. -/
abbrev queued : Conf BackfillStore BackfillThread :=
  ⟨queueStore 0 (replaceJob .pending 0 none "") [staleRun], backfillThreads⟩

theorem init_queued : BackfillInit queued := by
  refine ⟨by decide, fun p => ?_⟩
  match p with
  | 0 | 1 | 2 | 3 => rfl
  | _ + 4 => trivial

theorem copyCurrent_of_none {c : Conf BackfillStore BackfillThread} {p : ℕ} {s : BackfillStore}
    {t : BackfillThread} (hd : (c.thread p).deletes t = none)
    (he : (c.thread p).enqueues t = none) : CopyCurrent c p s t := by
  rintro job (h | h)
  · cases hd.symm.trans h
  · cases he.symm.trans h

variable {ok : StepCond BackfillStore BackfillThread} {c : Conf BackfillStore BackfillThread}
  {tr : List (Move BackfillStore BackfillThread)} {p : ℕ} {s s' : BackfillStore} {b b' : Backfill}

/-- One more step of the worker that took the last one. -/
theorem Run.work (hok : ∀ c p s t, CopyCurrent c p s t → ok c p s t)
    (h : Run SampleBackfills BackfillInit ok tr (c.set p s (.worker b))) (hs : b.Step {} s s' b')
    (hcur : ∀ job, (BackfillThread.worker b).deletes (.worker b') = some job ∨
      (BackfillThread.worker b).enqueues (.worker b') = some job → job.replace = true →
        (Marked s.backfills job.id ↔ job.replaceDeletedAt.isSome) := by
      rintro _ (h | h) <;> cases h) :
    Run SampleBackfills BackfillInit ok (⟨c.set p s (.worker b), p, s', .worker b'⟩ :: tr)
      (c.set p s' (.worker b')) := by
  refine h.again (.worker hs) (hok _ _ _ _ fun job hjob => ?_)
  rw [Conf.thread_set_self] at hjob
  exact hcur job hjob

theorem claim_replaceJob (clock : Time) (state : WatchActionBackfillState) {n : ℕ}
    (t : Option Time) (e : String) (hn : n < 3) :
    claim {} (replaceJob state n t e) clock [replaceJob state n t e] =
      [replaceJob .running (n + 1) (some clock) e] := by
  have hg : WatchActionBackfillGlobal.claimGuard {} (replaceJob state n t e)
      (replaceJob state n t e) = true := decide_eq_true ⟨rfl, rfl, hn⟩
  rw [claim, Table.update, List.map_singleton, if_pos hg]
  rfl

/-- A worker claims the job and comes to the first delete of its walk. -/
theorem exists_walking (hok : ∀ c p s t, CopyCurrent c p s t → ok c p s t)
    (h : Run SampleBackfills BackfillInit ok tr c) (p : ℕ) (clock : Time)
    (state : WatchActionBackfillState) (n : ℕ) (t : Option Time) (e : String)
    (runs : List WatchActionRun) (hp : c.thread p = .worker .idle)
    (hs : c.shared = queueStore clock (replaceJob state n t e) runs)
    (hst : state ∈ WatchActionBackfillGlobal.claimableStates) (hn : n < 3) (hc : 0 ≤ clock) :
    ∃ l, Run SampleBackfills BackfillInit ok (l ++ tr)
      (c.set p (queueStore clock (replaceJob .running (n + 1) (some clock) e) runs)
        (.worker (.walking (replaceAttempt clock (n + 1) e) (sampleAction 1 instantConfig 0) 0))) := by
  have hstart : Backfill.Step {} .idle (queueStore clock (replaceJob state n t e) runs)
      (queueStore clock (replaceJob state n t e) runs) (.started clock) := .start
  have hclaim : Backfill.Step {} (.candidate clock (replaceJob state n t e))
      (queueStore clock (replaceJob state n t e) runs)
      (queueStore clock (replaceJob .running (n + 1) (some clock) e) runs) (.claimed clock 1) := by
    have hrow := claim_replaceJob clock state t e hn
    have hstep : Backfill.Step {} (.candidate clock (replaceJob state n t e))
        (queueStore clock (replaceJob state n t e) runs) { queueStore clock (replaceJob state n t e)
          runs with backfills := claim {} (replaceJob state n t e) clock [replaceJob state n t e] }
        (.claimed clock 1) := .claim List.mem_cons_self (decide_eq_true ⟨rfl, rfl, hn⟩)
    rw [hrow] at hstep
    exact hstep
  have h₁ := h.next p (.worker hstart) hp hs (hok _ _ _ _
    (copyCurrent_of_none (by rw [hp]; rfl) (by rw [hp]; rfl)))
  have h₂ := Run.work hok h₁ (.candidate List.mem_cons_self ⟨hst, hn, 0, rfl, hc⟩)
  have h₃ := Run.work hok h₂ hclaim
  have h₄ := Run.work hok h₃
    (.refresh (j := replaceJob .running (n + 1) (some clock) e) List.mem_cons_self)
  have h₅ := Run.work hok h₄ (.target rfl)
  have h₆ := Run.work hok h₅ (.watch rfl rfl)
  have h₇ := Run.work hok h₆ .feeds
  have h₈ := Run.work hok h₇ (.countHead (n := 1) (.inl nofun) rfl)
  exact ⟨[_, _, _, _, _, _, _, _], h₈⟩

/-- The job's row after the stamp. -/
def markedJob (now : Time) (n : ℕ) (e : String) : WatchActionBackfill :=
  { replaceJob .running n (some now) e with replaceDeletedAt := some now, deleted := 1 }

/-- The attempt after the stamp. -/
def markedAttempt (now : Time) (n : ℕ) (e : String) : BackfillAttempt :=
  (replaceAttempt now n e).stamped 1

theorem stamp_replaceJob {clock : Time} {n : ℕ} {e : String} :
    (replaceAttempt clock n e).stamp 1 [replaceJob .running n (some clock) e] =
      [markedJob clock n e] := by
  have hg : backfillGuard (replaceAttempt clock n e).job (replaceJob .running n (some clock) e) =
      true := decide_eq_true ⟨rfl, rfl, rfl⟩
  rw [BackfillAttempt.stamp, Table.update, List.map_singleton, if_pos hg]
  rfl

/-- The worker deletes the old output, stamps its row and enqueues. -/
theorem exists_redone (hok : ∀ c p s t, CopyCurrent c p s t → ok c p s t) {clock : Time} {n : ℕ}
    {e : String} (h : Run SampleBackfills BackfillInit ok tr
      (c.set p (queueStore clock (replaceJob .running n (some clock) e) [staleRun])
        (.worker (.walking (replaceAttempt clock n e) (sampleAction 1 instantConfig 0) 0)))) :
    ∃ l, Run SampleBackfills BackfillInit ok (l ++ tr)
      (c.set p (queueStore clock (markedJob clock n e) [redoneRun clock])
        (.worker (.finishing (markedAttempt clock n e) 1 1))) ∧ 11 ∈ lineage 1 (l ++ tr) := by
  have hdelete : Backfill.Step {}
      (.walking (replaceAttempt clock n e) (sampleAction 1 instantConfig 0) 0)
      (queueStore clock (replaceJob .running n (some clock) e) [staleRun])
      (queueStore clock (replaceJob .running n (some clock) e) [])
      (.walked (replaceAttempt clock n e) (sampleAction 1 instantConfig 0) 1) := .delete
  have hstamp : Backfill.Step {} (.stamping (replaceAttempt clock n e) 1)
      (queueStore clock (replaceJob .running n (some clock) e) [])
      (queueStore clock (markedJob clock n e) [])
      (.streaming (markedAttempt clock n e) 1 {} 0) := by
    have hstep : Backfill.Step {} (.stamping (replaceAttempt clock n e) 1)
        (queueStore clock (replaceJob .running n (some clock) e) [])
        { queueStore clock (replaceJob .running n (some clock) e) [] with
          backfills := (replaceAttempt clock n e).stamp 1 [replaceJob .running n (some clock) e] }
        (.streaming (markedAttempt clock n e) 1 {} 0) := .stamp
    rw [stamp_replaceJob] at hstep
    exact hstep
  have hpage : Backfill.Step {} (.streaming (markedAttempt clock n e) 1 {} 0)
      (queueStore clock (markedJob clock n e) []) (queueStore clock (markedJob clock n e) [])
      (.streaming (markedAttempt clock n e) 1 ⟨some 1, [1]⟩ 0) := .page
  have hlast : Backfill.Step {} (.streaming (markedAttempt clock n e) 1 ⟨some 1, [1]⟩ 0)
      (queueStore clock (markedJob clock n e) []) (queueStore clock (markedJob clock n e) [])
      (.chunking (markedAttempt clock n e) 1 [1] none 0) := .page
  have hchunk : Backfill.Step {} (.chunking (markedAttempt clock n e) 1 [1] none 0)
      (queueStore clock (markedJob clock n e) []) (queueStore clock (markedJob clock n e) [])
      (.inserting (markedAttempt clock n e) 1 [1] none 0) := .chunk (List.cons_ne_nil 1 [])
  have hinsert : Backfill.Step {} (.inserting (markedAttempt clock n e) 1 [1] none 0)
      (queueStore clock (markedJob clock n e) [])
      (queueStore clock (markedJob clock n e) [redoneRun clock])
      (.finishing (markedAttempt clock n e) 1 1) := .insert (.add (n := 10) fun _ hr => absurd hr List.not_mem_nil)
  have h₁ := Run.work hok h hdelete (by
    rintro job (hd | hd)
    · obtain rfl := Option.some.inj hd
      refine fun _ => ⟨?_, fun hm => absurd hm Bool.false_ne_true⟩
      rintro ⟨j, hj, -, hm⟩
      obtain rfl := List.mem_singleton.mp hj
      exact absurd hm Bool.false_ne_true
    · cases hd)
  have h₂ := Run.work hok h₁ (.tail rfl)
  have h₃ := Run.work hok h₂ hstamp
  have h₄ := Run.work hok h₃ hpage
  have h₅ := Run.work hok h₄ hlast
  have h₆ := Run.work hok h₅ hchunk
  have h₇ := Run.work hok h₆ hinsert (by
    rintro job (hd | hd)
    · cases hd
    · obtain rfl := Option.some.inj hd
      exact fun _ => ⟨fun _ => rfl, fun _ => ⟨_, List.mem_cons_self, rfl, rfl⟩⟩)
  refine ⟨[_, _, _, _, _, _, _], h₇, mem_lineage_cons (r := redoneRun clock) ?_ ?_⟩
  · exact List.mem_filter.mpr ⟨List.mem_cons_self, rfl⟩
  · rw [enqueuesFor, Move.prev, Conf.thread_set_self]
    rfl

/-- A first attempt deletes the old output and enqueues the run again. -/
theorem replace_deletes_once_sample : ∃ tr, 11 ∈ lineage 1 tr ∧ DeletesOnce 1 tr := by
  obtain ⟨l₁, h₁⟩ := exists_walking (fun _ _ _ _ h => h) (.init init_queued) 0 0 _ _ _ _ _
    rfl rfl (by decide) (by decide) (by decide)
  obtain ⟨l₂, h₂, hmem⟩ := exists_redone (fun _ _ _ _ h => h) h₁
  exact ⟨_, hmem, replace_deletes_once h₂ 1⟩

/-- The tables of the other passes when the drain takes the enqueued run. -/
def redoneWorld : World := (queueStore 1000 (markedJob 1000 2 "") [redoneRun 1000]).toWorld

/-- The run claimed by the drain. -/
def redoneClaimed : World :=
  { redoneWorld with
    runs := [claimedRow 1000 (redoneRun 1000)]
    log := [.claimed 11 1 1000 1000] }

/-- The run completed by the drain. -/
def doneRun : WatchActionRun :=
  { claimedRow 1000 (redoneRun 1000) with state := .succeeded, completedAt := some 1000 }

/-- The tables of the other passes after the drain. -/
def redoneDone : World :=
  { redoneWorld with
    runs := [doneRun]
    log := [.completed 11 1, .claimed 11 1 1000 1000] }

/-- A delete that removes a run of its job's lineage breaks the law. -/
theorem DeletesOnce.broken {J : Id} {m : Move BackfillStore BackfillThread}
    {r : WatchActionRun} (hd : deletesFor J m = true) (hr : r ∈ removed m)
    (hs : r.state = .succeeded) (hl : r.id ∈ lineage J tr) :
    ¬ DeletesOnce J (m :: tr) ∧ deletesFor J m = true ∧
      ∃ r ∈ removed m, r.state = .succeeded ∧ r.id ∈ lineage J tr :=
  ⟨fun h => (h.2 hd r hr).1 hl, hd, r, hr, hs, hl⟩

/-- The drain worker's claim of the run. -/
def redoneHolding : Holding := ⟨1000, claimedRow 1000 (redoneRun 1000), 1⟩

theorem step_redoneCandidate : Drain.Step {} sampleExecutors sampleRegistry (.started 1000)
    redoneWorld redoneWorld (.candidate 1000 (redoneRun 1000)) :=
  .candidate (by decide)

theorem step_redoneClaimed : Drain.Step {} sampleExecutors sampleRegistry
    (.candidate 1000 (redoneRun 1000)) redoneWorld redoneClaimed (.claimed 1000 11 1) :=
  .claim (r := redoneRun 1000) (by decide) (by decide)

theorem step_redoneHeld : Drain.Step {} sampleExecutors sampleRegistry (.claimed 1000 11 1)
    redoneClaimed redoneClaimed (.held redoneHolding) :=
  .refresh List.mem_cons_self rfl

theorem step_redoneJudged : Drain.Step {} sampleExecutors sampleRegistry
    (.resolved redoneHolding (some (sampleAction 1 instantConfig 0))) redoneClaimed redoneClaimed
    (.judged redoneHolding (some (sampleAction 1 instantConfig 0)) { state := .succeeded } none) :=
  .judge (.returns (by decide) rfl { state := .succeeded } none)

theorem step_redoneDone : Drain.Step {} sampleExecutors sampleRegistry
    (.advancing redoneHolding (some (sampleAction 1 instantConfig 0)) { state := .succeeded } none
      none) redoneClaimed redoneDone (.started 1000) :=
  .commit (by decide) (.add (n := 12) (by decide)) (fun ⟨_, h, _⟩ => nomatch h) rfl

/-- **A regenerated run is deleted.** A worker stalls before the first delete of its walk and its job
is reaped; the second attempt deletes, stamps, enqueues, and the drain completes the run. The
stalled worker goes on and deletes it. -/
theorem regenerated_run_deleted : ∃ m tr c,
    Run SampleBackfills BackfillInit (fun _ _ _ _ => True) (m :: tr) c ∧
    ¬ DeletesOnce 1 (m :: tr) ∧ deletesFor 1 m = true ∧
      ∃ r ∈ removed m, r.state = .succeeded ∧ r.id ∈ lineage 1 tr := by
  -- the first attempt stalls in its walk, and its job goes stale
  have h₀ : Run SampleBackfills BackfillInit (fun _ _ _ _ => True) [] queued := .init init_queued
  obtain ⟨l₁, h₁⟩ := exists_walking (fun _ _ _ _ _ => trivial) h₀ 0 0 _ _ _ _ _ rfl rfl (by decide)
    (by decide) (by decide)
  have h₂ := h₁.next 4 (.pass (.env (k := .clock) (.inr rfl) (.clock 1000))) rfl rfl trivial
  have h₃ := h₂.next 2 (.reap .start) rfl rfl trivial
  have h₄ := h₃.again (.reap .exhausted) trivial
  have h₅ := h₄.again (.reap .retryable) trivial
  -- the second attempt
  obtain ⟨l₂, h₆⟩ := exists_walking (fun _ _ _ _ _ => trivial) h₅ 1 1000 .failed 1 (some 0)
    RunMessages.backfillTimedOut [staleRun] rfl rfl (by decide) (by decide) (by decide)
  obtain ⟨l₃, h₇, hmem⟩ := exists_redone (fun _ _ _ _ _ => trivial) h₆
  -- the drain completes the run that it has enqueued
  have h₈ := h₇.next 3 (.pass (.drain (.inl rfl) .start)) rfl rfl trivial
  have h₉ := h₈.again (.pass (.drain (.inl rfl) step_redoneCandidate)) trivial
  have h₁₀ := h₉.again (.pass (.drain (.inl rfl) step_redoneClaimed)) trivial
  have h₁₁ := h₁₀.again (.pass (.drain (.inl rfl) step_redoneHeld)) trivial
  have h₁₂ := h₁₁.again (.pass (.drain (.inl rfl) .resolve)) trivial
  have h₁₃ := h₁₂.again (.pass (.drain (.inl rfl) step_redoneJudged)) trivial
  have h₁₄ := h₁₃.again (.pass (.drain (.inl rfl) .lookup)) trivial
  have h₁₅ := h₁₄.again (.pass (.drain (.inl rfl) step_redoneDone)) trivial
  -- the first attempt goes on with its walk
  have h₁₆ := h₁₅.next 0 (.worker .delete) rfl rfl trivial
  have hrem : doneRun ∈ redoneDone.runs.filter fun r => decide (r ∉ ([] : List WatchActionRun)) :=
    List.mem_cons_self
  exact ⟨_, _, _, h₁₆, DeletesOnce.broken (r := doneRun) rfl hrem rfl
    (lineage_subset 1 [_, _, _, _, _, _, _, _] _ hmem)⟩

end Sample

end OpenMagpie
