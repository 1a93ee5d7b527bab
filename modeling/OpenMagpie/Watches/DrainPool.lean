import Mathlib.Data.List.Perm.Basic
import Mathlib.Data.List.Nodup
import Mathlib.Data.List.Range

/-!
# The bounded drain pool

A drain pass claims runs on the main thread and executes them in a pool of `n` workers. A run is
claimed when fewer than `n` are in flight; a finished run leaves a slot, which is filled before the
completion is handed back. The completions that a wait finds are taken in any order.

* `safeDrain`, `drainWorker`: how a worker ends; `drainWorker_eq_error_iff`: when it raises.
* `DrainPool.Step`: the steps of `_concurrent_completions` and of its workers.
* `PoolInv`: each claimed run has been handed back, is in flight, or is held, and just one of these.
* `weight`: what each step uses up once the claims end; `weight_lt`.
* **`poolContract`**: each claimed run is submitted once and its completion is handed back at most
  once, and once each when the pass ends; at most `n` are in flight; and when the claims end every run
  of the pass is finite, and ends or raises what the claimer or a worker has raised.
-/

set_option autoImplicit false

namespace OpenMagpie

/-! ## The workers -/

/-- How the drain of a run ends: it returns an outcome, or none for a lost claim; it raises an
`Exception`, or another `BaseException`. -/
inductive JudgeEnd (α : Type)
  | returned (outcome : Option α)
  | raised (exc : String)
  | aborted (exc : String)

/-- `_DrainOutcome`. -/
abbrev DrainOutcome (α : Type) := Option α × Option String

/-- `_safe_drain`. -/
def safeDrain {α : Type} : JudgeEnd α → Except String (DrainOutcome α)
  | .returned outcome => .ok (outcome, none)
  | .raised exc => .ok (none, some exc)
  | .aborted exc => .error exc

/-- `_drain_worker`, given the drain's end and what closing the connections raises. -/
def drainWorker {α : Type} (drain : JudgeEnd α) (closing : Option String) :
    Except String (DrainOutcome α) :=
  match closing with
  | none => safeDrain drain
  | some exc => .error exc

/-- A worker raises what is no `Exception`, or what closing its connections raises. -/
theorem drainWorker_eq_error_iff {α : Type} {drain : JudgeEnd α} {closing : Option String} :
    (∃ e, drainWorker drain closing = .error e) ↔ (∃ e, drain = .aborted e) ∨ closing ≠ none := by
  cases closing with
  | some exc => simp [drainWorker]
  | none => cases drain <;> simp [drainWorker, safeDrain]

/-! ## The pool -/

/-- What `next(claimer)` does. -/
inductive Claim
  | run
  | stop
  | raises

/-- Where the main thread is: filling the free slots, with the completion that it holds and the rest of
the completions found; at the wait; at the loop over the completions found; or done. -/
inductive PoolPhase (β : Type)
  | fill (held : Option ((ℕ × β) × List ℕ))
  | waiting
  | iterating (done : List ℕ)
  | ended
  | raised

/-- The pool. A run is the number of its claim; `submitted` are the runs given to the workers,
`inFlight` those that have not been popped, `finished` those whose worker is done, `yielded` the
completions handed back. -/
structure DrainPool (β : Type) where
  claimed : ℕ := 0
  submitted : List ℕ := []
  inFlight : List ℕ := []
  finished : List ℕ := []
  yielded : List (ℕ × β) := []
  phase : PoolPhase β := .fill none

namespace DrainPool

variable {β : Type}

/-- The runs whose workers are busy. -/
def running (s : DrainPool β) : List ℕ := s.inFlight.filter fun i => decide (i ∉ s.finished)

/-- The slots are filled: the held completion is handed back. -/
def handBack (s : DrainPool β) : Option ((ℕ × β) × List ℕ) → DrainPool β
  | none => { s with phase := .waiting }
  | some (completion, done) =>
    { s with yielded := s.yielded ++ [completion], phase := .iterating done }

/-- **The steps of `_concurrent_completions`**, and those of its workers, with `n` workers, given what
the claimer does at each claim and how each worker ends. -/
inductive Step (n : ℕ) (claims : ℕ → Claim) (worker : ℕ → Except String β) :
    DrainPool β → DrainPool β → Prop
  | claim {s : DrainPool β} {held : Option ((ℕ × β) × List ℕ)} : s.phase = .fill held →
      s.inFlight.length < n → claims s.claimed = .run → Step n claims worker s
        { s with
          claimed := s.claimed + 1, submitted := s.submitted ++ [s.claimed]
          inFlight := s.inFlight ++ [s.claimed] }
  | stopped {s : DrainPool β} {held : Option ((ℕ × β) × List ℕ)} : s.phase = .fill held →
      s.inFlight.length < n → claims s.claimed = .stop → Step n claims worker s (s.handBack held)
  | full {s : DrainPool β} {held : Option ((ℕ × β) × List ℕ)} : s.phase = .fill held →
      n ≤ s.inFlight.length → Step n claims worker s (s.handBack held)
  | claimRaises {s : DrainPool β} {held : Option ((ℕ × β) × List ℕ)} : s.phase = .fill held →
      s.inFlight.length < n → claims s.claimed = .raises →
      Step n claims worker s { s with phase := .raised }
  | wait {s : DrainPool β} {done : List ℕ} : s.phase = .waiting →
      done.Perm (s.inFlight.filter fun i => decide (i ∈ s.finished)) → done ≠ [] →
      Step n claims worker s { s with phase := .iterating done }
  | finish {s : DrainPool β} : s.phase = .waiting → s.inFlight = [] →
      Step n claims worker s { s with phase := .ended }
  | next {s : DrainPool β} {i : ℕ} {done : List ℕ} {result : β} : s.phase = .iterating (i :: done) →
      worker i = .ok result → Step n claims worker s
        { s with inFlight := s.inFlight.erase i, phase := .fill (some ((i, result), done)) }
  | nextRaises {s : DrainPool β} {i : ℕ} {done : List ℕ} {e : String} :
      s.phase = .iterating (i :: done) → worker i = .error e → Step n claims worker s
        { s with inFlight := s.inFlight.erase i, phase := .raised }
  | again {s : DrainPool β} : s.phase = .iterating [] →
      Step n claims worker s { s with phase := .waiting }
  | work {s : DrainPool β} {i : ℕ} : i ∈ s.inFlight → i ∉ s.finished →
      Step n claims worker s { s with finished := i :: s.finished }

/-- The pools reached by so many steps. -/
inductive Reaches (n : ℕ) (claims : ℕ → Claim) (worker : ℕ → Except String β) :
    ℕ → DrainPool β → Prop
  | start : Reaches n claims worker 0 {}
  | step {k : ℕ} {s s' : DrainPool β} : Reaches n claims worker k s → Step n claims worker s s' →
      Reaches n claims worker (k + 1) s'

/-! ## What every pool satisfies -/

section Invariant

variable {n k : ℕ} {claims : ℕ → Claim} {worker : ℕ → Except String β} {s s' : DrainPool β}

/-- The run whose completion is held while the slots are filled. -/
def heldRuns : PoolPhase β → List ℕ
  | .fill (some ((i, _), _)) => [i]
  | .fill none | .waiting | .iterating _ | .ended | .raised => []

/-- Completions found by a wait are of runs in flight whose workers are done. -/
def Found (s : DrainPool β) (done : List ℕ) : Prop :=
  done.Nodup ∧ ∀ i ∈ done, i ∈ s.inFlight ∧ i ∈ s.finished

/-- The slots are filled. -/
def Filled (n : ℕ) (claims : ℕ → Claim) (s : DrainPool β) : Prop :=
  claims s.claimed = .stop ∨ n ≤ s.inFlight.length

/-- What the place of the main thread says of the pool. -/
def PhaseInv (n : ℕ) (claims : ℕ → Claim) (worker : ℕ → Except String β) (s : DrainPool β) :
    PoolPhase β → Prop
  | .fill none => True
  | .fill (some ((i, result), done)) => worker i = .ok result ∧ Found s done
  | .waiting => Filled n claims s
  | .iterating done => Found s done ∧ Filled n claims s
  | .ended => s.inFlight = [] ∧ claims s.claimed = .stop
  | .raised => claims s.claimed = .raises ∨ ∃ i < s.claimed, ∃ e, worker i = .error e

/-- **The invariant of the pool.** The runs claimed are those of the first claims, submitted in turn;
each has been handed back, is held or is in flight; completions are those of the workers. -/
structure PoolInv (n : ℕ) (claims : ℕ → Claim) (worker : ℕ → Except String β) (s : DrainPool β) :
    Prop where
  claimed : ∀ i < s.claimed, claims i = .run
  submitted : s.submitted = List.range s.claimed
  within : s.inFlight.length ≤ n
  account : ∃ held, (s.phase = .raised ∨ held = heldRuns s.phase) ∧
    (s.yielded.map (·.1) ++ held ++ s.inFlight).Perm (List.range s.claimed)
  outcomes : ∀ c ∈ s.yielded, worker c.1 = .ok c.2
  phase : PhaseInv n claims worker s s.phase

theorem poolInv_start : PoolInv n claims worker {} where
  claimed _ h := absurd h (Nat.not_lt_zero _)
  submitted := rfl
  within := Nat.zero_le _
  account := ⟨[], .inr rfl, .refl _⟩
  outcomes _ h := absurd h List.not_mem_nil
  phase := trivial

namespace PoolInv

variable {held : Option ((ℕ × β) × List ℕ)}

/-- No run in flight is in flight twice. -/
theorem nodup_inFlight (h : PoolInv n claims worker s) : s.inFlight.Nodup := by
  obtain ⟨held, -, hperm⟩ := h.account
  exact (List.nodup_append.mp (hperm.nodup_iff.mpr List.nodup_range)).2.1

/-- A run in flight has been claimed. -/
theorem lt_claimed (h : PoolInv n claims worker s) {i : ℕ} (hi : i ∈ s.inFlight) : i < s.claimed := by
  obtain ⟨held, -, hperm⟩ := h.account
  exact List.mem_range.mp (hperm.subset (List.mem_append_right _ hi))

/-- The held completion is handed back when the slots are filled. -/
theorem handBack (h : PoolInv n claims worker s) (hphase : s.phase = .fill held)
    (hfilled : Filled n claims s) : PoolInv n claims worker (s.handBack held) := by
  obtain ⟨lost, hlost, hperm⟩ := h.account
  obtain rfl : lost = heldRuns s.phase := hlost.resolve_left fun heq => by
    rw [hphase] at heq
    cases heq
  have hinv := h.phase
  rw [hphase] at hperm hinv
  rcases held with _ | ⟨⟨i, result⟩, done⟩
  · exact { h with account := ⟨[], .inr rfl, hperm⟩, phase := hfilled }
  · refine { h with account := ⟨[], .inr rfl, ?_⟩, outcomes := ?_, phase := ⟨hinv.2, hfilled⟩ }
    · change ((s.yielded ++ [(i, result)]).map Prod.fst ++ [] ++ s.inFlight).Perm _
      rw [List.map_append, List.append_nil]
      exact hperm
    · intro c hc
      rcases List.mem_append.mp hc with hc | hc
      · exact h.outcomes c hc
      · obtain rfl := List.mem_singleton.mp hc
        exact hinv.1

/-- The next completion is popped. -/
theorem account_erase (h : PoolInv n claims worker s) {i : ℕ} {done : List ℕ}
    (hphase : s.phase = .iterating (i :: done)) :
    (s.yielded.map (·.1) ++ [i] ++ s.inFlight.erase i).Perm (List.range s.claimed) := by
  obtain ⟨lost, hlost, hperm⟩ := h.account
  have hinv := h.phase
  rw [hphase] at hlost hinv
  obtain rfl := hlost.resolve_left nofun
  have hmem := (hinv.1.2 i List.mem_cons_self).1
  refine .trans ?_ hperm
  rw [heldRuns, List.append_nil, List.append_assoc, List.singleton_append]
  exact (List.perm_cons_erase hmem).symm.append_left _

/-- **Every step keeps the invariant.** -/
theorem step (hn : 0 < n) (h : PoolInv n claims worker s) (hs : Step n claims worker s s') :
    PoolInv n claims worker s' := by
  cases hs with
  | @claim held hphase hlt hrun =>
    obtain ⟨lost, hlost, hperm⟩ := h.account
    have hinv := h.phase
    refine ⟨fun i hi => ?_, ?_, ?_, ⟨lost, hlost, ?_⟩, h.outcomes, ?_⟩
    · rcases Nat.lt_succ_iff_lt_or_eq.mp hi with hi | rfl
      · exact h.claimed i hi
      · exact hrun
    · rw [h.submitted, List.range_succ]
    · rw [List.length_append, List.length_singleton]
      exact hlt
    · rw [← List.append_assoc, List.range_succ]
      exact hperm.append_right _
    · rw [hphase] at hinv ⊢
      rcases held with _ | ⟨⟨i, result⟩, done⟩
      · trivial
      · exact ⟨hinv.1, hinv.2.1, fun j hj =>
          ⟨List.mem_append_left _ (hinv.2.2 j hj).1, (hinv.2.2 j hj).2⟩⟩
  | stopped hphase _ hstop => exact h.handBack hphase (.inl hstop)
  | full hphase hfull => exact h.handBack hphase (.inr hfull)
  | claimRaises hphase _ hraises =>
    obtain ⟨lost, -, hperm⟩ := h.account
    exact { h with account := ⟨lost, .inl rfl, hperm⟩, phase := .inl hraises }
  | @wait done hphase hdone _ =>
    obtain ⟨lost, hlost, hperm⟩ := h.account
    have hinv := h.phase
    rw [hphase] at hlost hinv
    refine { h with
      account := ⟨lost, .inr (hlost.resolve_left nofun), hperm⟩
      phase := ⟨⟨hdone.nodup_iff.mpr (h.nodup_inFlight.filter _), fun i hi => ?_⟩, hinv⟩ }
    obtain ⟨hmem, hfin⟩ := List.mem_filter.mp (hdone.subset hi)
    exact ⟨hmem, of_decide_eq_true hfin⟩
  | finish hphase hnil =>
    obtain ⟨lost, hlost, hperm⟩ := h.account
    have hinv := h.phase
    rw [hphase] at hlost hinv
    refine { h with
      account := ⟨lost, .inr (hlost.resolve_left nofun), hperm⟩, phase := ⟨hnil, ?_⟩ }
    refine hinv.resolve_right fun hle => ?_
    rw [hnil] at hle
    exact Nat.not_le_of_lt hn hle
  | @next i done result hphase hresult =>
    have hinv := h.phase
    rw [hphase] at hinv
    have hnodup := List.nodup_cons.mp hinv.1.1
    refine { h with
      within := Nat.le_trans List.length_erase_le h.within
      account := ⟨[i], .inr rfl, h.account_erase hphase⟩
      phase := ⟨hresult, hnodup.2, fun j hj => ?_⟩ }
    have hj' := hinv.1.2 j (List.mem_cons_of_mem _ hj)
    exact ⟨(List.mem_erase_of_ne (fun heq : j = i => hnodup.1 (heq ▸ hj))).mpr hj'.1, hj'.2⟩
  | @nextRaises i done e hphase herror =>
    have hinv := h.phase
    rw [hphase] at hinv
    exact { h with
      within := Nat.le_trans List.length_erase_le h.within
      account := ⟨[i], .inl rfl, h.account_erase hphase⟩
      phase := .inr ⟨i, h.lt_claimed (hinv.1.2 i List.mem_cons_self).1, e, herror⟩ }
  | again hphase =>
    obtain ⟨lost, hlost, hperm⟩ := h.account
    have hinv := h.phase
    rw [hphase] at hlost hinv
    exact { h with
      account := ⟨lost, .inr (hlost.resolve_left nofun), hperm⟩, phase := hinv.2 }
  | @work i _ _ =>
    have hinv := h.phase
    have hfound (done : List ℕ) (hd : Found s done) :
        Found { s with finished := i :: s.finished } done :=
      ⟨hd.1, fun j hj => ⟨(hd.2 j hj).1, List.mem_cons_of_mem _ (hd.2 j hj).2⟩⟩
    refine { h with phase := ?_ }
    change PhaseInv n claims worker { s with finished := i :: s.finished } s.phase
    cases hphase : s.phase with
    | fill held => cases held with
      | none => trivial
      | some held =>
        rw [hphase] at hinv
        exact ⟨hinv.1, hfound _ hinv.2⟩
    | iterating done =>
      rw [hphase] at hinv
      exact ⟨hfound _ hinv.1, hinv.2⟩
    | waiting | ended | raised =>
      rw [hphase] at hinv
      exact hinv

end PoolInv

theorem Reaches.inv (hn : 0 < n) (h : Reaches n claims worker k s) : PoolInv n claims worker s := by
  induction h with
  | start => exact poolInv_start
  | step _ hs ih => exact ih.step hn hs

/-! ## The end of a pass -/

/-- What is left to do at a place of the main thread. -/
def phaseWeight : PoolPhase β → ℕ
  | .fill _ => 3
  | .iterating [] => 2
  | .waiting => 1
  | .iterating (_ :: _) | .ended | .raised => 0

/-- What is left to do when there are `last` claims: each run is claimed, worked on, popped and handed
back. -/
def weight (last : ℕ) (s : DrainPool β) : ℕ :=
  6 * (last - s.claimed) + 4 * s.inFlight.length + s.running.length + phaseWeight s.phase

theorem weight_phase {last : ℕ} {phase : PoolPhase β} (h : phaseWeight phase < phaseWeight s.phase) :
    weight last { s with phase } < weight last s := Nat.add_lt_add_left h _

theorem weight_handBack {last : ℕ} {held : Option ((ℕ × β) × List ℕ)}
    (hphase : s.phase = .fill held) : weight last (s.handBack held) < weight last s := by
  have hlt : phaseWeight (s.handBack held).phase < phaseWeight s.phase := by
    rw [hphase]
    rcases held with _ | ⟨completion, _ | ⟨i, done⟩⟩
    · exact (by decide : 1 < 3)
    · exact (by decide : 2 < 3)
    · exact (by decide : 0 < 3)
  rcases held with _ | held
  · exact Nat.add_lt_add_left hlt _
  · exact Nat.add_lt_add_left hlt _

/-- A run whose worker is done is not running. -/
theorem length_running_erase {i : ℕ} (hmem : i ∈ s.inFlight) (hi : i ∈ s.finished) :
    ((s.inFlight.erase i).filter fun j => decide (j ∉ s.finished)).length = s.running.length := by
  have hperm := (List.perm_cons_erase hmem).filter fun j => decide (j ∉ s.finished)
  rw [List.filter_cons_of_neg (by simpa using hi)] at hperm
  exact hperm.length_eq.symm

/-- A run is popped. -/
theorem weight_pop {last i : ℕ} {done : List ℕ} {phase : PoolPhase β}
    (h : PoolInv n claims worker s) (hphase : s.phase = .iterating (i :: done))
    (hle : phaseWeight phase ≤ 3) :
    weight last { s with inFlight := s.inFlight.erase i, phase } < weight last s := by
  have hinv := h.phase
  rw [hphase] at hinv
  obtain ⟨hmem, hfin⟩ := hinv.1.2 i List.mem_cons_self
  have hrun := length_running_erase hmem hfin
  have hlen := List.length_erase_add_one hmem
  rw [weight, weight, hphase]
  change 6 * (last - s.claimed) + 4 * (s.inFlight.erase i).length +
    ((s.inFlight.erase i).filter fun j => decide (j ∉ s.finished)).length + phaseWeight phase < _
  rw [hrun, ← hlen, phaseWeight]
  omega

/-- **Every step uses something up** when the claims end. -/
theorem weight_lt {last : ℕ} (hlast : claims last = .stop) (h : PoolInv n claims worker s)
    (hs : Step n claims worker s s') : weight last s' < weight last s := by
  cases hs with
  | claim hphase hlt hrun =>
    have hle : s.claimed ≤ last := Nat.le_of_not_lt fun hlt => by
      rw [h.claimed last hlt] at hlast
      cases hlast
    have hne : s.claimed ≠ last := fun heq => by
      rw [heq, hlast] at hrun
      cases hrun
    have hrunning : (({ s with
        claimed := s.claimed + 1, submitted := s.submitted ++ [s.claimed]
        inFlight := s.inFlight ++ [s.claimed] } : DrainPool β).running).length ≤
        s.running.length + 1 := by
      rw [running, List.filter_append, List.length_append]
      exact Nat.add_le_add_left (List.length_filter_le _ _) _
    rw [weight, weight]
    simp only [List.length_append, List.length_singleton]
    omega
  | stopped hphase _ _ => exact weight_handBack hphase
  | full hphase _ => exact weight_handBack hphase
  | claimRaises hphase _ _ =>
    refine weight_phase ?_
    rw [hphase]
    exact (by decide : 0 < 3)
  | @wait done hphase _ hne =>
    obtain ⟨i, done, rfl⟩ := List.exists_cons_of_ne_nil hne
    refine weight_phase ?_
    rw [hphase]
    exact (by decide : 0 < 1)
  | finish hphase _ =>
    refine weight_phase ?_
    rw [hphase]
    exact (by decide : 0 < 1)
  | next hphase _ => exact weight_pop h hphase (Nat.le_refl 3)
  | nextRaises hphase _ => exact weight_pop h hphase (Nat.zero_le 3)
  | again hphase =>
    refine weight_phase ?_
    rw [hphase]
    exact (by decide : 1 < 2)
  | @work i hmem hfin =>
    have hlt : (({ s with finished := i :: s.finished } : DrainPool β).running).length <
        s.running.length := by
      have hrun : ({ s with finished := i :: s.finished } : DrainPool β).running =
          s.running.filter fun j => decide (j ≠ i) := by
        rw [running, running, List.filter_filter]
        refine List.filter_congr fun j _ => ?_
        simp [List.mem_cons, not_or]
      rw [hrun, List.length_filter_lt_length_iff_exists]
      exact ⟨i, List.mem_filter.mpr ⟨hmem, decide_eq_true hfin⟩, by simp⟩
    rw [weight, weight]
    change 6 * (last - s.claimed) + 4 * s.inFlight.length + _ + phaseWeight s.phase < _
    omega

/-- A pass that is not over can go on. -/
theorem exists_step (s : DrainPool β) :
    (∃ s', Step n claims worker s s') ∨ s.phase = .ended ∨ s.phase = .raised := by
  cases hphase : s.phase with
  | fill held =>
    refine .inl ?_
    rcases Nat.lt_or_ge s.inFlight.length n with hlt | hfull
    · cases hclaim : claims s.claimed with
      | run => exact ⟨_, .claim hphase hlt hclaim⟩
      | stop => exact ⟨_, .stopped hphase hlt hclaim⟩
      | raises => exact ⟨_, .claimRaises hphase hlt hclaim⟩
    · exact ⟨_, .full hphase hfull⟩
  | waiting =>
    refine .inl ?_
    by_cases hnil : s.inFlight = []
    · exact ⟨_, .finish hphase hnil⟩
    · by_cases hdone : (s.inFlight.filter fun i => decide (i ∈ s.finished)) = []
      · -- a worker is busy
        obtain ⟨i, hi⟩ := List.exists_mem_of_ne_nil _ hnil
        have hfin : i ∉ s.finished := fun hfin =>
          List.not_mem_nil (hdone ▸ List.mem_filter.mpr ⟨hi, decide_eq_true hfin⟩)
        exact ⟨_, .work hi hfin⟩
      · exact ⟨_, .wait hphase (.refl _) hdone⟩
  | iterating done => cases done with
    | nil => exact .inl ⟨_, .again hphase⟩
    | cons i done => cases hend : worker i with
      | ok result => exact .inl ⟨_, .next hphase hend⟩
      | error e => exact .inl ⟨_, .nextRaises hphase hend⟩
  | ended => exact .inr (.inl rfl)
  | raised => exact .inr (.inr rfl)

/-- So many steps use up as much. -/
theorem Reaches.weight_le {last : ℕ} (hn : 0 < n) (hlast : claims last = .stop)
    (h : Reaches n claims worker k s) : k + weight last s ≤ 6 * last + 3 := by
  induction h with
  | start => exact Nat.le_of_eq (by simp [weight, running, phaseWeight])
  | step h hs ih =>
    have hlt := weight_lt hlast (h.inv hn) hs
    omega

/-- A run handed back has been claimed, and is not handed back again. -/
theorem PoolInv.yielded (h : PoolInv n claims worker s) :
    (s.yielded.map (·.1)).Nodup ∧ ∀ c ∈ s.yielded, c.1 < s.claimed := by
  obtain ⟨held, -, hperm⟩ := h.account
  have hnodup := hperm.nodup_iff.mpr List.nodup_range
  refine ⟨(List.nodup_append.mp (List.nodup_append.mp hnodup).1).1, fun c hc => ?_⟩
  exact List.mem_range.mp (hperm.subset
    (List.mem_append_left _ (List.mem_append_left _ (List.mem_map_of_mem hc))))

/-- All that was claimed has been handed back at the end. -/
theorem PoolInv.ended (h : PoolInv n claims worker s) (hphase : s.phase = .ended) :
    claims s.claimed = .stop ∧ (s.yielded.map (·.1)).Perm (List.range s.claimed) := by
  obtain ⟨held, hheld, hperm⟩ := h.account
  have hinv := h.phase
  rw [hphase] at hheld hinv
  obtain rfl := hheld.resolve_left nofun
  rw [hinv.1, heldRuns, List.append_nil, List.append_nil] at hperm
  exact ⟨hinv.2, hperm⟩

end Invariant

end DrainPool

/-! ## The contract -/

open DrainPool

/-- **The contract of a drain pass** with `n` workers, in every pool it reaches. Claimed runs are submitted
in turn, each once; a completion is handed back at most once, as its worker gave it; at most `n` runs
are in flight, and fewer than `n` workers are busy when a run is claimed. A pass that ends has handed
every completion back, at the end of the claims; it raises when the claimer does, or when a drain
raises what is no `Exception` or a worker's connections cannot be closed. When the claims end, it
takes no more than so many steps, and it goes on until it ends or raises. -/
structure PoolContract {α : Type} (n : ℕ) (claims : ℕ → Claim) (drain : ℕ → JudgeEnd α)
    (closing : ℕ → Option String) (worker : ℕ → Except String (DrainOutcome α)) : Prop where
  submitted_once : ∀ k s, Reaches n claims worker k s → s.submitted = List.range s.claimed
  handed_once : ∀ k s, Reaches n claims worker k s → (s.yielded.map (·.1)).Nodup ∧
    ∀ c ∈ s.yielded, c.1 < s.claimed ∧ drainWorker (drain c.1) (closing c.1) = .ok c.2
  bounded : ∀ k s, Reaches n claims worker k s → s.inFlight.length ≤ n
  slot_free : ∀ k s s', Reaches n claims worker k s → Step n claims worker s s' →
    s.claimed < s'.claimed → s.running.length < n
  ended : ∀ k s, Reaches n claims worker k s → s.phase = .ended →
    claims s.claimed = .stop ∧ (s.yielded.map (·.1)).Perm (List.range s.claimed)
  raised : ∀ k s, Reaches n claims worker k s → s.phase = .raised →
    claims s.claimed = .raises ∨ ∃ i < s.claimed, (∃ e, drain i = .aborted e) ∨ closing i ≠ none
  terminates : ∀ last, claims last = .stop → ∀ k s, Reaches n claims worker k s → k ≤ 6 * last + 3
  goes_on : ∀ k s, Reaches n claims worker k s →
    (∃ s', Step n claims worker s s') ∨ s.phase = .ended ∨ s.phase = .raised

/-- A run is claimed when a slot is free. -/
theorem running_lt_of_claim {β : Type} {n : ℕ} {claims : ℕ → Claim} {worker : ℕ → Except String β}
    {s s' : DrainPool β} (hs : Step n claims worker s s') (hlt : s.claimed < s'.claimed) :
    s.running.length < n := by
  cases hs with
  | claim _ hslot _ => exact Nat.lt_of_le_of_lt (List.length_filter_le _ _) hslot
  | @stopped held _ _ _ | @full held _ _ =>
    rcases held with _ | held
    · exact absurd hlt (Nat.lt_irrefl _)
    · exact absurd hlt (Nat.lt_irrefl _)
  | _ => exact absurd hlt (Nat.lt_irrefl _)

/-- **Every drain pass keeps the contract**, whatever the claims, the workers and the order in which
they are done. -/
theorem poolContract {α : Type} {n : ℕ} (hn : 0 < n) (claims : ℕ → Claim) (drain : ℕ → JudgeEnd α)
    (closing : ℕ → Option String) :
    PoolContract n claims drain closing fun i => drainWorker (drain i) (closing i) where
  submitted_once _ _ h := (h.inv hn).submitted
  handed_once _ _ h := ⟨(h.inv hn).yielded.1, fun c hc =>
    ⟨(h.inv hn).yielded.2 c hc, (h.inv hn).outcomes c hc⟩⟩
  bounded _ _ h := (h.inv hn).within
  slot_free _ _ _ _ hs hlt := running_lt_of_claim hs hlt
  ended _ _ h hphase := (h.inv hn).ended hphase
  raised _ _ h hphase := by
    have hinv := (h.inv hn).phase
    rw [hphase] at hinv
    exact hinv.imp_right fun ⟨i, hi, herror⟩ => ⟨i, hi, drainWorker_eq_error_iff.mp herror⟩
  terminates _ hlast _ _ h := Nat.le_trans (Nat.le_add_right _ _) (h.weight_le hn hlast)
  goes_on _ s _ := exists_step s

/-- A pass of one worker over two runs, one of which raises. -/
theorem poolContract_sample : PoolContract 1 (fun i => if i < 2 then .run else .stop)
    (fun i => if i = 0 then .returned (some "succeeded") else .raised "boom") (fun _ => none)
    (fun i => drainWorker (if i = 0 then .returned (some "succeeded") else .raised "boom") none) :=
  poolContract Nat.one_pos _ _ _

/-- A single run, whose drain raises `SystemExit`. -/
abbrev AbortedStep : DrainPool (DrainOutcome String) → DrainPool (DrainOutcome String) → Prop :=
  Step 1 (fun i => if i < 1 then .run else .stop) fun _ => drainWorker (.aborted "SystemExit") none

/-- Its completion is not handed back: the pass raises, and nothing more happens. -/
theorem aborted_lost : ¬ ∀ k s, Reaches 1 (fun i => if i < 1 then .run else .stop)
    (fun _ => drainWorker (.aborted "SystemExit" : JudgeEnd String) none) k s →
    (¬ ∃ s', AbortedStep s s') → (s.yielded.map (·.1)).Perm (List.range s.claimed) := by
  intro hall
  have hclaim : AbortedStep {} { claimed := 1, submitted := [0], inFlight := [0] } :=
    .claim rfl Nat.one_pos rfl
  have hfull : AbortedStep { claimed := 1, submitted := [0], inFlight := [0] }
      { claimed := 1, submitted := [0], inFlight := [0], phase := .waiting } :=
    @Step.full _ _ _ _ { claimed := 1, submitted := [0], inFlight := [0] } none rfl (Nat.le_refl 1)
  have hwork : AbortedStep { claimed := 1, submitted := [0], inFlight := [0], phase := .waiting }
      { claimed := 1, submitted := [0], inFlight := [0], finished := [0], phase := .waiting } :=
    .work List.mem_cons_self List.not_mem_nil
  have hwait : AbortedStep
      { claimed := 1, submitted := [0], inFlight := [0], finished := [0], phase := .waiting }
      { claimed := 1, submitted := [0], inFlight := [0], finished := [0], phase := .iterating [0] } :=
    .wait rfl (.refl _) (List.cons_ne_nil _ _)
  have hraise : AbortedStep
      { claimed := 1, submitted := [0], inFlight := [0], finished := [0], phase := .iterating [0] }
      { claimed := 1, submitted := [0], finished := [0], phase := .raised } :=
    @Step.nextRaises _ _ _ _
      { claimed := 1, submitted := [0], inFlight := [0], finished := [0], phase := .iterating [0] }
      0 [] "SystemExit" rfl rfl
  have hperm := hall 5 { claimed := 1, submitted := [0], finished := [0], phase := .raised }
    (.step (.step (.step (.step (.step .start hclaim) hfull) hwork) hwait) hraise) (by
      rintro ⟨s', hs⟩
      cases hs with
      | work hmem _ => exact absurd hmem List.not_mem_nil
      | claim hphase _ _ | stopped hphase _ _ | full hphase _ | claimRaises hphase _ _
      | wait hphase _ _ | finish hphase _ | next hphase _ | nextRaises hphase _ | again hphase =>
        cases hphase)
  exact absurd hperm.length_eq (by decide)

end OpenMagpie
