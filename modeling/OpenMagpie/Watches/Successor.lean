import OpenMagpie.Watches.System

/-!
# The successor of an in-flight run

The successor query compares the stored ranks of a path with the rank of the row that the worker
loaded before it ran the action. Edits renumber the path in between.

* `RankHolds`, **`nextInChain_eq_iff`**: the action above the loaded rank is the stored successor
  exactly when the stored rank is at most the loaded one and no action of the path lies between.
* `AdvancesTo`: the advance of a run goes to a given action; `advancesTo_iff`: when it does.
* **`advance_follows_chain`**: exactly when a commit advances to the stored successor, in every run
  in which no edit of a path moves, adds or deletes an action between a look at its chain and the
  commit after it.
* **`advance_stalls`**: an action added in front makes the chain stop.
-/

set_option autoImplicit false

namespace OpenMagpie

open WatchActionRunState Interleave

variable {C : Type} {S : Settings} {E : Executors} {R : Registry C} {on : Component → Prop}

/-! ## The action above a rank -/

/-- The loaded row `a` and the stored row `a'` have the same actions of the path above them. -/
def RankHolds (account : Id) (a a' : WatchAction) (actions : List WatchAction) : Prop :=
  a'.rank ≤ a.rank ∧ ∀ b ∈ actions, b.accountId = account → b.pathId = a.pathId →
    a'.rank < b.rank → a.rank < b.rank

/-- **The successor query answers the stored successor exactly when the ranks agree.** -/
theorem nextInChain_eq_iff {account : Id} {a a' : WatchAction} {actions : List WatchAction}
    (ha : a' ∈ actions) (hacc : a'.accountId = account) (hpath : a'.pathId = a.pathId) :
    nextInChain account a actions = nextInChain account a' actions ↔
      RankHolds account a a' actions := by
  constructor
  · intro he
    have hle : a'.rank ≤ a.rank := by
      -- otherwise the stored row is itself above the loaded rank
      by_contra hlt
      have hmem : a' ∈ above account a.pathId a.rank actions :=
        mem_above.mpr ⟨ha, hacc, hpath, by omega⟩
      cases hn : nextInChain account a actions with
      | none =>
        rw [nextInChain, List.argmin_eq_none] at hn
        rw [hn] at hmem
        exact absurd hmem List.not_mem_nil
      | some m =>
        have h₁ : m.rank ≤ a'.rank := List.le_of_mem_argmin hmem hn
        have h₂ := (mem_above.mp (List.argmin_mem (he ▸ hn))).2.2.2
        omega
    refine ⟨hle, fun b hb hbacc hbpath hlt => ?_⟩
    have hmem : b ∈ above account a'.pathId a'.rank actions :=
      mem_above.mpr ⟨hb, hbacc, hbpath.trans hpath.symm, hlt⟩
    cases hn : nextInChain account a' actions with
    | none =>
      rw [nextInChain, List.argmin_eq_none] at hn
      rw [hn] at hmem
      exact absurd hmem List.not_mem_nil
    | some m =>
      have h₁ : m.rank ≤ b.rank := List.le_of_mem_argmin hmem hn
      have h₂ := (mem_above.mp (List.argmin_mem (he.trans hn))).2.2.2
      omega
  · intro ⟨hle, hbetween⟩
    have habove : above account a.pathId a.rank actions =
        above account a'.pathId a'.rank actions := by
      refine List.filter_congr fun b hb => ?_
      rw [decide_eq_decide, hpath]
      constructor
      · rintro ⟨h₁, h₂, h₃⟩
        exact ⟨h₁, h₂, by omega⟩
      · rintro ⟨h₁, h₂, h₃⟩
        exact ⟨h₁, h₂, hbetween b hb h₁ h₂ h₃⟩
    rw [nextInChain, nextInChain, habove]

/-- What the successor query reads of a path: the actions' ids and ranks, in the table's order. -/
def chainPlaces (account path : Id) (actions : List WatchAction) : List (Id × ℕ) :=
  (chainRows account path actions).map fun b => (b.id, b.rank)

/-- The least of the images is the image of the least. -/
theorem argmin_map {α β γ : Type*} [LinearOrder γ] (f : α → β) (g : β → γ) (l : List α) :
    (l.map f).argmin g = (l.argmin fun x => g (f x)).map f := by
  induction l using List.reverseRecOn with
  | nil => rfl
  | append_singleton l a ih =>
    rw [List.map_append, List.map_singleton, List.argmin_concat, List.argmin_concat, ih]
    cases l.argmin fun x => g (f x) with
    | none => rfl
    | some c =>
      dsimp only [Option.map_some]
      split <;> rfl

/-- The successor query reads the ids and ranks of the path only. -/
theorem nextInChain_places (account : Id) (a : WatchAction) (actions : List WatchAction) :
    (nextInChain account a actions).map (fun b => (b.id, b.rank)) =
      ((chainPlaces account a.pathId actions).filter fun b => decide (a.rank < b.2)).argmin
        Prod.snd := by
  have habove : above account a.pathId a.rank actions =
      (chainRows account a.pathId actions).filter fun b => decide (a.rank < b.rank) := by
    rw [chainRows, List.filter_filter, above]
    refine List.filter_congr fun b _ => ?_
    rw [← Bool.decide_and, decide_eq_decide]
    tauto
  have hmap : (chainPlaces account a.pathId actions).filter (fun b => decide (a.rank < b.2)) =
      (above account a.pathId a.rank actions).map fun b => (b.id, b.rank) := by
    rw [chainPlaces, List.filter_map, habove]
    rfl
  rw [hmap, argmin_map, nextInChain]

/-- Two answers of the successor query name one action, or both none. -/
def SameNext (x y : Option WatchAction) : Prop := x.map WatchAction.id = y.map WatchAction.id

theorem nextInChain_congr {account : Id} {a : WatchAction} {actions actions' : List WatchAction}
    (h : chainPlaces account a.pathId actions' = chainPlaces account a.pathId actions) :
    SameNext (nextInChain account a actions') (nextInChain account a actions) := by
  have hids (l : List WatchAction) : (nextInChain account a l).map WatchAction.id =
      ((nextInChain account a l).map fun b => (b.id, b.rank)).map Prod.fst := by
    rw [Option.map_map]
    rfl
  rw [SameNext, hids, hids, nextInChain_places, nextInChain_places, h]

/-- On a table with distinct ids, answers that name one action are one row. -/
theorem sameNext_iff_eq {actions : List WatchAction} (hok : ActionsOk actions)
    {x y : Option WatchAction} (hx : ∀ n ∈ x, n ∈ actions) (hy : ∀ n ∈ y, n ∈ actions) :
    SameNext x y ↔ x = y := by
  constructor
  · intro h
    cases x with
    | none => exact (Option.map_eq_none_iff.mp h.symm).symm
    | some n =>
      obtain ⟨m, rfl, hmn⟩ := Option.map_eq_some_iff.mp h.symm
      rw [hok.eq_of_id (hy m rfl) (hx n rfl) hmn]
  · rintro rfl
    rfl

/-! ## The advance of one run -/

/-- The unique key of the run's successor in an action. -/
def nextKey (run : WatchActionRun) (action : WatchAction) : RunKey :=
  (run.accountId, run.watchId, action.id, run.feedItemId)

/-- The run's item has a run in the action, if there is an action. -/
def HasNext (run : WatchActionRun) (next : Option WatchAction) (runs : List WatchActionRun) : Prop :=
  ∀ n ∈ next, nextKey run n ∈ runs.map WatchActionRun.key

theorem nextKey_inj {run : WatchActionRun} {n m : WatchAction} :
    nextKey run n = nextKey run m ↔ n.id = m.id := by
  simp [nextKey]

theorem SameNext.hasNext {run : WatchActionRun} {x y : Option WatchAction}
    {runs : List WatchActionRun} (h : SameNext x y) : HasNext run x runs ↔ HasNext run y runs := by
  have hone {x y : Option WatchAction} (h : SameNext x y) (hx : HasNext run x runs) :
      HasNext run y runs := by
    rintro n rfl
    obtain ⟨m, rfl, hmn⟩ := Option.map_eq_some_iff.mp h
    exact nextKey_inj.mpr hmn ▸ hx m rfl
  exact ⟨hone h, hone h.symm⟩

/-- The run's item is enqueued for `next` and for nothing else: afterwards it has its run there,
and a row whose key was free is that run. -/
structure AdvancesTo (run : WatchActionRun) (next : Option WatchAction)
    (runs runs' : List WatchActionRun) : Prop where
  enqueued : HasNext run next runs'
  only : ∀ x ∈ runs', x.key ∈ runs.map WatchActionRun.key ∨ ∃ n ∈ next, x.key = nextKey run n

/-- **An advance into `succ` is an advance to `next`** when they are the same action, or when both
have their run of the item already. -/
theorem advancesTo_iff {mint : Id → Id} {run : WatchActionRun} {next succ : Option WatchAction}
    {now : Time} {w w' : World} {runs : List WatchActionRun}
    (h : Advanced R mint run.accountId [run] succ now w w')
    (hk : w.runs.map WatchActionRun.key = runs.map WatchActionRun.key) :
    AdvancesTo run next runs w'.runs ↔
      SameNext succ next ∨ (HasNext run succ runs ∧ HasNext run next runs) := by
  have hall : HasNext run succ w'.runs := fun n hn => h.all List.mem_cons_self hn
  have hnew : ∀ x ∈ w'.runs, x.key ∈ runs.map WatchActionRun.key ∨
      (∃ m ∈ succ, x.key = nextKey run m) ∧ x.key ∉ runs.map WatchActionRun.key := by
    intro x hx
    rcases h.runs.2 x hx with hx | ⟨m, hm, t, r, hr, rfl, hfree⟩
    · exact .inl (hk ▸ List.mem_map_of_mem hx)
    · obtain rfl := List.mem_singleton.mp hr
      exact .inr ⟨⟨m, hm, rfl⟩, hk ▸ hfree⟩
  have hold : runs.map WatchActionRun.key ⊆ w'.runs.map WatchActionRun.key :=
    hk ▸ List.map_subset _ h.runs.1
  constructor
  · intro ha
    by_cases he : SameNext succ next
    · exact .inl he
    have hsucc : HasNext run succ runs := by
      intro m hm
      obtain ⟨x, hx, hxk⟩ := List.mem_map.mp (hall m hm)
      rcases ha.only x hx with hin | ⟨n, hn, hxn⟩
      · exact hxk ▸ hin
      · refine absurd ?_ he
        obtain rfl : succ = some m := hm
        obtain rfl : next = some n := hn
        exact congrArg some (nextKey_inj.mp (hxk.symm.trans hxn))
    refine .inr ⟨hsucc, fun n hn => ?_⟩
    obtain ⟨x, hx, hxk⟩ := List.mem_map.mp (ha.enqueued n hn)
    rcases hnew x hx with hin | ⟨⟨m, hm, hxm⟩, -⟩
    · exact hxk ▸ hin
    · rw [← hxk, hxm]
      exact hsucc m hm
  · rintro (he | ⟨hsucc, hnext⟩)
    · refine ⟨he.hasNext.mp hall, fun x hx => (hnew x hx).imp_right ?_⟩
      rintro ⟨⟨m, rfl, hxm⟩, -⟩
      obtain ⟨n, rfl, hnm⟩ := Option.map_eq_some_iff.mp he.symm
      exact ⟨n, rfl, hxm.trans (nextKey_inj.mpr hnm.symm)⟩
    · refine ⟨fun n hn => hold (hnext n hn), fun x hx => ?_⟩
      rcases hnew x hx with hin | ⟨⟨m, hm, hxm⟩, hfree⟩
      · exact .inl hin
      · exact absurd (hxm ▸ hsucc m hm) hfree

/-! ## Every run -/

/-- No edit of a path moves, adds or deletes an action while a worker stands between its look at
the path's chain and its commit. -/
def LooksHold : StepCond World Thread := fun c _ w _ =>
  ∀ q k a res d succ, c.thread q = .drain (.advancing k (some a) res d succ) →
    chainPlaces k.run.accountId a.pathId w.actions =
      chainPlaces k.run.accountId a.pathId c.shared.actions

/-- A worker about to commit a success holds the action above the loaded rank, with the
configuration it had when the worker looked. -/
def Thread.Looks (w : World) : Thread → Prop
  | .drain (.advancing k (some a) res _ succ) =>
    res.state = succeeded → SameNext succ (nextInChain k.run.accountId a w.actions)
  | _ => True

theorem System.looks {t t' : Thread} {w w' : World} (h : System S E R on t w w' t') :
    t'.Looks w' := by
  cases h with
  | drain _ h =>
    cases h with
    | @lookup w k action res d =>
      cases action with
      | none => trivial
      | some a =>
        intro hs
        rw [lookupSuccessor, if_pos hs]
        rfl
    | _ => trivial
  | _ => trivial

theorem Thread.Looks.keep {t : Thread} {w w' : World} (h : t.Looks w)
    (hk : ∀ k a res d succ, t = .drain (.advancing k (some a) res d succ) →
      chainPlaces k.run.accountId a.pathId w'.actions =
        chainPlaces k.run.accountId a.pathId w.actions) : t.Looks w' := by
  cases t with
  | drain d =>
    cases d with
    | advancing k action res d succ =>
      cases action with
      | none => trivial
      | some a =>
        intro hs
        exact (h hs).trans (nextInChain_congr (hk k a res d succ rfl)).symm
    | _ => trivial
  | _ => trivial

theorem reach_looks {G : World → Prop} {c : Conf World Thread}
    (h : ReachIn (System S E R on) (Init G) LooksHold c) : ∀ p, (c.thread p).Looks c.shared := by
  refine (h.each (G := fun _ => True) (L := fun w t => t.Looks w) ?_ ?_ ?_).2
  · rintro c ⟨-, hidle⟩
    refine ⟨trivial, fun p => ?_⟩
    have hp := hidle p
    cases ht : c.thread p with
    | drain d =>
      rw [ht] at hp
      obtain rfl : d = .idle := hp
      trivial
    | _ => trivial
  · exact fun _ _ hs _ => ⟨trivial, hs.looks⟩
  · intro c p q w t _ hL _ hok _
    exact (hL q).keep fun k a res d succ hq => hok q k a res d succ hq

/-- **A commit advances to the stored successor exactly when the loaded rank still tells it.** In
every run in which no edit of a path moves, adds or deletes an action between a look at its chain
and the commit after it: a worker that commits a success of an action still on its path advances the
item to the action that follows it in the stored order, and to nothing else, if and only if the stored
rank is at most the loaded one with no action of the path between them, or that action and the one
above the loaded rank both have their run of the item already. -/
theorem advance_follows_chain {c : Conf World Thread}
    (h : ReachIn (System S E R on) (Init fun w => ActionsOk w.actions) LooksHold c) {p : ℕ}
    {k : Holding} {a a' : WatchAction} {res : ActionResult} {d : Option Id}
    {succ : Option WatchAction} {w' : World}
    (hp : c.thread p = .drain (.advancing k (some a) res d succ)) (hres : res.state = succeeded)
    (hwin : completeWins k.run c.shared.runs = true)
    (hs : System S E R on (c.thread p) c.shared w' (.drain (.started k.now)))
    (ha : getAction k.run.accountId a.id c.shared.actions = some a')
    (hpath : a'.pathId = a.pathId) :
    AdvancesTo k.run (nextInChain k.run.accountId a' c.shared.actions) c.shared.runs w'.runs ↔
      RankHolds k.run.accountId a a' c.shared.actions ∨
        (HasNext k.run (nextInChain k.run.accountId a c.shared.actions) c.shared.runs ∧
          HasNext k.run (nextInChain k.run.accountId a' c.shared.actions) c.shared.runs) := by
  have hok : ActionsOk c.shared.actions := reach_actionsOk (fun _ hw => hw) h
  have hlook := reach_looks h p
  obtain ⟨hmem', -, hacc⟩ := of_getAction ha
  rw [hp] at hlook hs
  have hheld : SameNext succ (nextInChain k.run.accountId a c.shared.actions) := hlook hres
  have hmem {b n : WatchAction} (hn : n ∈ nextInChain k.run.accountId b c.shared.actions) :
      n ∈ c.shared.actions := (mem_above.mp (List.argmin_mem hn)).1
  cases hs with
  | drain _ hs =>
    cases hs with
    | commit _ _ _ hadv =>
      have hsame : SameNext succ (nextInChain k.run.accountId a' c.shared.actions) ↔
          RankHolds k.run.accountId a a' c.shared.actions := by
        rw [← nextInChain_eq_iff hmem' hacc hpath, ← sameNext_iff_eq hok (fun _ => hmem)
          fun _ => hmem, SameNext, hheld]
        rfl
      rw [← hsame, ← hheld.hasNext]
      exact advancesTo_iff (advanced_of_enqueueNextBatch hadv)
        (Table.map_update _ fun _ _ => rfl)
    | lose hl => exact absurd (hwin.symm.trans hl) (by decide)

/-! ## With and without the condition -/

/-- A chain of two instant actions, with a pending run of the first. -/
def twoSteps : World where
  runs := [sampleRun 1 1 1]
  actions := [sampleAction 1 instantConfig 0, sampleAction 2 instantConfig 1]
  items := [sampleItem 1]

/-- A worker and an editor. -/
def workerAndEditor : ℕ → Thread
  | 0 => .drain .idle
  | 1 => .edit .idle
  | _ => .env

theorem idle_workerAndEditor (p : ℕ) : (workerAndEditor p).Idle := by
  rcases p with _ | _ | p
  · rfl
  · rfl
  · trivial

theorem init_twoSteps : Init (fun w => ActionsOk w.actions) ⟨twoSteps, workerAndEditor⟩ :=
  ⟨⟨by decide, by decide⟩, idle_workerAndEditor⟩

/-- Drain workers and edits. -/
def DrainAndEdit (k : Component) : Prop := k = .drain ∨ k = .edit

/-- The first action's run, claimed by a pass of clock 0. -/
def firstRun : WatchActionRun := claimedRow 0 (sampleRun 1 1 1)

/-- The first action's run, completed as a success by a pass of clock 0. -/
def firstDone : WatchActionRun :=
  completedRow { state := succeeded } (some 0) none (some "log") firstRun

/-- The chain after the claim. -/
def firstClaimed : World := { twoSteps with runs := [firstRun], log := [.claimed 1 1 0 0] }

/-- A worker that has loaded the first action. -/
def firstLoaded : Drain := .resolved ⟨0, firstRun, 1⟩ (some (sampleAction 1 instantConfig 0))

/-- A worker about to commit the first action's success. -/
def firstAdvancing (succ : WatchAction) : Drain :=
  .advancing ⟨0, firstRun, 1⟩ (some (sampleAction 1 instantConfig 0)) { state := succeeded } none
    (some succ)

theorem looksHold_of_actions {c : Conf World Thread} {p : ℕ} {w : World} {t : Thread}
    (h : w.actions = c.shared.actions) : LooksHold c p w t :=
  fun _ _ _ _ _ _ _ => by rw [h]

/-- A worker has loaded the first action. -/
theorem reach_firstLoaded : ReachIn (SampleSystem DrainAndEdit)
    (Init fun w => ActionsOk w.actions) LooksHold
    (Conf.set ⟨twoSteps, workerAndEditor⟩ 0 firstClaimed (.drain firstLoaded)) := by
  have hclaim : Drain.Step {} sampleExecutors sampleRegistry (.candidate 0 (sampleRun 1 1 1))
      twoSteps firstClaimed (.claimed 0 1 1) :=
    .claim (by decide : sampleRun 1 1 1 ∈ _) (by decide)
  have hrefresh : Drain.Step {} sampleExecutors sampleRegistry (.claimed 0 1 1) firstClaimed
      firstClaimed (.held ⟨0, firstRun, 1⟩) := .refresh (by decide) rfl
  have h₀ : ReachIn (SampleSystem DrainAndEdit) (Init fun w => ActionsOk w.actions) LooksHold
      ⟨twoSteps, workerAndEditor⟩ := .init init_twoSteps
  have h₁ := h₀.next 0 (.drain (.inl rfl) .start) rfl rfl (looksHold_of_actions rfl)
  have h₂ := h₁.again (.drain (.inl rfl) (.candidate (by decide : sampleRun 1 1 1 ∈ _)))
    (looksHold_of_actions rfl)
  have h₃ := h₂.again (.drain (.inl rfl) hclaim) (looksHold_of_actions rfl)
  have h₄ := h₃.again (.drain (.inl rfl) hrefresh) (looksHold_of_actions rfl)
  exact h₄.again (.drain (.inl rfl) .resolve) (looksHold_of_actions rfl)

/-- Without an edit the item advances to the second action. -/
theorem advance_follows_chain_sample : AdvancesTo firstRun (some (sampleAction 2 instantConfig 1))
    [firstRun] [firstDone, newRun 11 1 1 2 "log" 1 0 (some 1)] := by
  let done : World := { firstClaimed with
    runs := [firstDone, newRun 11 1 1 2 "log" 1 0 (some 1)]
    log := .completed 1 1 :: firstClaimed.log }
  have hjudge : Drain.Step {} sampleExecutors sampleRegistry firstLoaded firstClaimed firstClaimed
      (.judged ⟨0, firstRun, 1⟩ (some (sampleAction 1 instantConfig 0)) { state := succeeded } none) :=
    .judge (.returns (by decide) (by decide) { state := succeeded } none)
  have hcommit : Drain.Step {} sampleExecutors sampleRegistry
      (firstAdvancing (sampleAction 2 instantConfig 1)) firstClaimed done (.started 0) :=
    .commit (by decide) (.add (n := 10) (by decide)) (not_blocked_instant _ _ _) rfl
  have h₁ := reach_firstLoaded.again (.drain (.inl rfl) hjudge) (looksHold_of_actions rfl)
  have h₂ := h₁.again (.drain (.inl rfl) .lookup) (looksHold_of_actions rfl)
  have hstored : getAction 1 1 firstClaimed.actions = some (sampleAction 1 instantConfig 0) := rfl
  exact (advance_follows_chain h₂ (p := 0) rfl rfl (by decide) (.drain (.inl rfl) hcommit) hstored
    rfl).mpr (.inl ⟨le_rfl, fun _ _ _ _ h => h⟩)

/-- An action added in front of the chain while the first action runs. -/
def frontAdded : World :=
  { firstClaimed with
    actions := [sampleAction 1 instantConfig 1, sampleAction 2 instantConfig 2,
      sampleAction 3 instantConfig 0] }

/-- **The chain stops.** While the worker runs the first action, an action is added in front; the
action above the loaded rank 0 is now the first action itself, whose run is there already, and the
second action is never enqueued. -/
theorem advance_stalls : ∃ (c : Conf World Thread) (k : Holding) (a a' n : WatchAction)
    (res : ActionResult) (d : Option Id) (succ : Option WatchAction) (w' : World),
    Reach (SampleSystem DrainAndEdit) (Init fun w => ActionsOk w.actions) c ∧
    c.thread 0 = .drain (.advancing k (some a) res d succ) ∧ res.state = succeeded ∧
    completeWins k.run c.shared.runs = true ∧
    SampleSystem DrainAndEdit (c.thread 0) c.shared w' (.drain (.started k.now)) ∧
    getAction k.run.accountId a.id c.shared.actions = some a' ∧ a'.pathId = a.pathId ∧
    nextInChain k.run.accountId a' c.shared.actions = some n ∧
    nextKey k.run n ∉ w'.runs.map WatchActionRun.key := by
  let done : World :=
    { frontAdded with runs := [firstDone], log := .completed 1 1 :: frontAdded.log }
  have hadd : add sampleRegistry 3 1 1 ⟨none, "log", instantConfig⟩ (some 0) firstClaimed.actions =
      .ok {
        account := 1
        created := [sampleAction 3 instantConfig 3]
        ranks := [(3, 0), (1, 1), (2, 2)] } := by rfl
  have hedit : Edit.Step sampleRegistry .idle firstClaimed frontAdded .idle :=
    .add (by decide) hadd ⟨by decide, by decide, by decide, by decide⟩
  have hjudge : Drain.Step {} sampleExecutors sampleRegistry firstLoaded frontAdded frontAdded
      (.judged ⟨0, firstRun, 1⟩ (some (sampleAction 1 instantConfig 0)) { state := succeeded } none) :=
    .judge (.returns (by decide) (by decide) { state := succeeded } none)
  have hcommit : Drain.Step {} sampleExecutors sampleRegistry
      (firstAdvancing (sampleAction 1 instantConfig 1)) frontAdded done (.started 0) :=
    .commit (by decide) (.add (n := 10) (by decide)) (not_blocked_instant _ _ _) rfl
  have h₁ := Reach.next reach_firstLoaded.reach 1 (.edit (.inr rfl) hedit) rfl rfl
  have h₂ := Reach.next h₁ 0 (.drain (.inl rfl) hjudge) rfl rfl
  have h₃ := Reach.again h₂ (.drain (.inl rfl) .lookup)
  exact ⟨_, ⟨0, firstRun, 1⟩, sampleAction 1 instantConfig 0, sampleAction 1 instantConfig 1,
    sampleAction 2 instantConfig 2, { state := succeeded }, none,
    some (sampleAction 1 instantConfig 1), done, h₃, rfl, rfl, by decide,
    .drain (.inl rfl) hcommit, rfl, rfl, rfl, by decide⟩

end OpenMagpie
