import OpenMagpie.Watches.Rows

/-!
# Slices in flight

A flush gathers a slice without a lock and settles it several steps later. In between, its runs
are to stay as they were gathered.

* `Thread.inFlight`: the runs of a slice from its gathering to the writes that complete or fail
  them; `Exclusive`: no step claims or gathers a run that another slice has in flight.
* `System.kept`: a step leaves a pending run alone that it neither claims nor has in flight.
* **`reach_tracked`**: in every run whose steps are exclusive, the runs in flight are pending runs
  of the window's action, under the attempts they were gathered with, and no run is in two slices.
-/

set_option autoImplicit false

namespace OpenMagpie

open WatchActionRunState Interleave

variable {C : Type} {S : Settings} {E : Executors} {R : Registry C} {on : Component → Prop}

/-- The runs a flush has gathered and not yet completed or failed. -/
def Flush.inFlight : Flush → List Id
  | .fetched s _ gone => s.ids ++ gone
  | .gathered s | .resolved s _ | .emitting s _ | .settling s _ | .advancing s .. | .closing s .. =>
    s.ids
  | _ => []

/-- The runs a thread has in flight. -/
def Thread.inFlight : Thread → List Id
  | .flush f => f.inFlight
  | _ => []

/-- The step claims the run. -/
inductive Claims : Thread → Thread → Id → Prop
  | claim {now : Time} {run : WatchActionRun} {n : ℕ} :
      Claims (.drain (.candidate now run)) (.drain (.claimed now run.id n)) run.id

/-- No step claims or gathers a run that another thread's slice has in flight. -/
def Exclusive : StepCond World Thread := fun c p _ t =>
  (∀ i, Claims (c.thread p) t i → ∀ q, i ∉ (c.thread q).inFlight) ∧
    ∀ i ∈ t.inFlight, i ∉ (c.thread p).inFlight → ∀ q, q ≠ p → i ∉ (c.thread q).inFlight

/-- **Passes that do not overlap are exclusive.** -/
theorem exclusive_of_alone {c : Conf World Thread} {p : ℕ} {w : World} {t : Thread}
    (hs : System S E R on (c.thread p) c.shared w t) (h : ∀ q, q ≠ p → (c.thread q).inFlight = []) :
    Exclusive c p w t := by
  refine ⟨fun i hi q => ?_, fun i _ _ q hq => by simp [h q hq]⟩
  by_cases hq : q = p
  · subst hq
    cases hc : c.thread q with
    | flush f =>
      rw [hc] at hi
      cases hi
    | _ => simp [Thread.inFlight]
  · simp [h q hq]

/-! ## What a step leaves alone -/

/-- **A step leaves a pending run alone that it neither claims nor has in flight.** -/
theorem System.kept {t t' : Thread} {w w' : World} (h : System S E R on t w w' t')
    (hdel : ¬ on .deleteRuns) (hw : RunsOk w.runs) (hw' : RunsOk w'.runs) {r : WatchActionRun}
    (hr : r ∈ w.runs) (hp : r.state = pending) (hc : ¬ Claims t t' r.id)
    (hf : r.id ∉ t.inFlight) : r ∈ w'.runs := by
  obtain ⟨r', hr', hwr⟩ := (h.evolve hdel hw hw').1 r hr
  cases hwr with
  | keep => exact hr'
  | claim hg =>
    obtain ⟨hid, -, -⟩ := claimGuard_iff.mp hg
    cases h with
    | drain _ h =>
      cases h with
      | claim =>
        rw [hid] at hc
        exact absurd .claim hc
      | skip => exact hr
      | crash => exact hr
  | complete hg =>
    rw [(completeGuard_iff.mp hg).2.1] at hp
    cases hp
  | exhausted hs | retryable hs =>
    rw [hs.1] at hp
    cases hp
  | unresolvable _ hg => exact absurd (batchGuard_iff.mp hg).1 hf
  | gone hg => exact absurd (List.mem_append_right _ (batchGuard_iff.mp hg).1) hf
  | settle =>
    rw [Settle.row_of_not_mem hf] at hr'
    exact hr'

/-! ## The runs in flight -/

theorem RunsOk.nodup_ids {runs : List WatchActionRun} (h : RunsOk runs) :
    (runs.map (·.id)).Nodup :=
  (List.Nodup.of_map _ h.keys).map_on fun r hr r' hr' => h.ids r hr r' hr'

/-- The runs a flush has in flight are pending runs of the window's action, listed once, and the
batch has the attempts it was gathered with. -/
structure Flush.Tracked (runs : List WatchActionRun) (f : Flush) : Prop where
  nodup : f.inFlight.Nodup
  row : ∀ s ∈ f.slice, ∀ i ∈ f.inFlight, ∃ r ∈ runs, r.id = i ∧
    IsPendingOf s.window.accountId s.window.actionId r ∧
    ∀ x ∈ s.batch, x.id = i → x.attempts = r.attempts

/-- The runs a thread has in flight are as they were gathered. -/
def Thread.Tracked (runs : List WatchActionRun) : Thread → Prop
  | .flush f => f.Tracked runs
  | _ => True

/-- A flush without runs in flight. -/
theorem Flush.Tracked.of_nil {f : Flush} {runs : List WatchActionRun} (h : f.inFlight = []) :
    f.Tracked runs :=
  ⟨by simp [h], fun _ _ i hi => by simp [h] at hi⟩

/-- **A flush's own steps** leave its runs in flight as they were gathered. -/
theorem Flush.Step.tracked {f f' : Flush} {w w' : World} (h : Flush.Step S E R f w w' f')
    (hw : RunsOk w.runs) (ht : f.Tracked w.runs) : f'.Tracked w'.runs := by
  cases h with
  | start | due | empty | unresolvable | abort | crash => exact .of_nil rfl
  | @gather w now window _ =>
    refine ⟨(hw.digestBatch _ _).nodup_ids, ?_⟩
    rintro s hs i hi
    obtain rfl := Option.mem_some.mp hs
    obtain ⟨r, hr, rfl⟩ := List.mem_map.mp hi
    obtain ⟨hmem, hp⟩ := mem_of_mem_digestBatch hr
    refine ⟨r, hmem, rfl, hp, fun x hx hid => ?_⟩
    rw [hw.ids x (mem_of_mem_digestBatch hx).1 r hmem hid]
  | resolve | emit | raise | lookup => exact ⟨ht.nodup, ht.row⟩
  | check =>
    refine ⟨ht.nodup, ?_⟩
    split_ifs <;> exact ht.row
  | @fetch w s action =>
    have hperm : (s.batch.filter (fun r => decide (HasItem w.items r)) ++
        s.batch.filter fun r => ! decide (HasItem w.items r)).Perm s.batch :=
      List.filter_append_perm _ _
    have hids := hperm.map (·.id)
    rw [List.map_append] at hids
    refine ⟨hids.nodup_iff.mpr ht.nodup, ?_⟩
    rintro s' hs i hi
    obtain rfl := Option.mem_some.mp hs
    obtain ⟨r, hr, hid, hp, ha⟩ := ht.row s rfl i (hids.mem_iff.mp hi)
    exact ⟨r, hr, hid, hp, fun x hx => ha x (List.mem_of_mem_filter hx)⟩
  | @gone w s action gone =>
    split_ifs with hb
    · exact .of_nil (by simp [Flush.inFlight, Slice.ids, hb])
    · obtain ⟨hn, -, hdis⟩ := List.nodup_append.mp ht.nodup
      refine ⟨hn, ?_⟩
      rintro s' hs i hi
      obtain rfl := Option.mem_some.mp hs
      obtain ⟨r, hr, rfl, hp, ha⟩ := ht.row s rfl i (List.mem_append_left _ hi)
      refine ⟨r, ?_, rfl, hp, ha⟩
      rw [completeBatch_eq_update]
      refine Table.mem_update_of_not hr (Bool.eq_false_iff.mpr fun hg => ?_)
      exact hdis _ hi _ (batchGuard_iff.mp hg).1 rfl
  | commit => split_ifs <;> exact .of_nil rfl

/-- What one step keeps of the runs in flight. -/
theorem preserves_tracked (hdel : ¬ on .deleteRuns) :
    Preserves (System S E R on) Exclusive (fun w => RunsOk w.runs)
      (fun w t => t.SliceOk ∧ t.Tracked w.runs)
      (fun _ t t' => ∀ i ∈ t.inFlight, i ∉ t'.inFlight) where
  own {c p w t} hi hs _ := by
    obtain ⟨hw, ht⟩ := hs.runsOk hi.shared (hi.each p).1
    refine ⟨hw, ht, ?_⟩
    have htr := (hi.each p).2
    generalize c.thread p = t₀ at hs htr
    cases hs with
    | flush _ h => exact h.tracked hi.shared htr
    | _ => trivial
  other {c p q w t} hi hs hex hq := by
    have hw := (hs.runsOk hi.shared (hi.each p).1).1
    obtain ⟨hslice, htr⟩ := hi.each q
    refine ⟨⟨hslice, ?_⟩, ?_, ?_⟩
    · cases hf : c.thread q with
      | flush f =>
        rw [hf] at htr
        refine ⟨htr.nodup, fun s hs' i hin => ?_⟩
        have hin' : i ∈ (c.thread q).inFlight := hf ▸ hin
        obtain ⟨r, hr, rfl, hp, ha⟩ := htr.row s hs' i hin
        refine ⟨r, ?_, rfl, hp, ha⟩
        exact hs.kept hdel hi.shared hw hr hp.2.2 (fun hc => hex.1 _ hc q hin')
          (hi.pair q p hq _ hin')
      | _ => trivial
    · intro i hin
      by_cases hold : i ∈ (c.thread p).inFlight
      · exact hi.pair p q (Ne.symm hq) i hold
      · exact hex.2 i hin hold q hq
    · intro i hin hnew
      by_cases hold : i ∈ (c.thread p).inFlight
      · exact hi.pair p q (Ne.symm hq) i hold hin
      · exact hex.2 i hnew hold q hq hin
  others hi _ _ _ _ hqr := hi.pair _ _ hqr

theorem Thread.Idle.inFlight {t : Thread} (h : t.Idle) : t.inFlight = [] := by
  cases t with
  | flush f =>
    obtain rfl : f = .idle := h
    rfl
  | _ => rfl

theorem Thread.Idle.tracked {t : Thread} (h : t.Idle) (runs : List WatchActionRun) :
    t.Tracked runs := by
  cases t with
  | flush f => exact .of_nil h.inFlight
  | _ => trivial

/-- **The runs in flight stay as they were gathered**, in every run whose steps are exclusive. -/
theorem reach_tracked (hdel : ¬ on .deleteRuns) {G : World → Prop} (hG : ∀ w, G w → RunsOk w.runs)
    {c : Conf World Thread} (h : ReachIn (System S E R on) (Init G) Exclusive c) :
    ThreadInv (fun w => RunsOk w.runs) (fun w t => t.SliceOk ∧ t.Tracked w.runs)
      (fun _ t t' => ∀ i ∈ t.inFlight, i ∉ t'.inFlight) c := by
  refine h.threads ?_ (preserves_tracked hdel)
  rintro c ⟨hg, hidle⟩
  refine ⟨hG _ hg, fun p => ⟨(hidle p).sliceOk, (hidle p).tracked _⟩, fun p q _ i hi => ?_⟩
  rw [(hidle p).inFlight] at hi
  cases hi

end OpenMagpie
