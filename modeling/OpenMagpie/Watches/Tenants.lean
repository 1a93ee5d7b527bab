import OpenMagpie.Watches.Owners
import OpenMagpie.Watches.System

/-!
# One account's part of a deployment

Every pass but the reaper works for one account at a time. What the store holds for an account is what
it could hold if the deployment served no other account.

* `Thread.of`: a pass as an account sees it: at rest while it works for another.
* `Thread.Owned`, `Owner.Keeps`: threads name ids of the account that they work for, and no step gives
  an id to a second account; **`names_owned`**: so it is in every reachable state.
* `PartStep`, **`System.of`**: a step of the system is a step of the account's part, or nothing there.
* **`account_part`**: the account's part of a run is a run.
-/

set_option autoImplicit false

namespace OpenMagpie

open Interleave

/-! ## An account's threads -/

/-- The account that a drain worker works for. -/
@[simp]
def Drain.account (o : Owner) : Drain → Option Id
  | .idle | .started _ => none
  | .candidate _ run => some run.accountId
  | .claimed _ id _ => some (o.run id)
  | .held h | .resolved h _ | .judged h .. | .advancing h .. => some h.run.accountId

/-- A drain worker between two runs. -/
@[simp]
def Drain.rest : Drain → Drain
  | .idle => .idle
  | .started now | .candidate now _ | .claimed now .. => .started now
  | .held h | .resolved h _ | .judged h .. | .advancing h .. => .started h.now

/-- The account that a flush works for. -/
@[simp]
def Flush.account : Flush → Option Id
  | .idle | .started _ => none
  | .due _ window => some window.accountId
  | .gathered s | .resolved s _ | .fetched s .. | .emitting s _ | .settling s _ | .advancing s ..
  | .closing s .. => some s.window.accountId

/-- A flush between two windows. -/
@[simp]
def Flush.rest : Flush → Flush
  | .idle => .idle
  | .started now | .due now _ => .started now
  | .gathered s | .resolved s _ | .fetched s .. | .emitting s _ | .settling s _ | .advancing s ..
  | .closing s .. => .started s.now

theorem Flush.rest_ne_closing (f : Flush) {s : Slice} {x : Settle} {succ : Option WatchAction}
    {mint : Id → Id} {locked drained : Bool} : f.rest ≠ .closing s x succ mint locked drained := by
  cases f <;> simp

/-- The account that a trigger pass works for. -/
@[simp]
def Trigger.account : Trigger → Option Id
  | .idle => none
  | .started _ watch => some watch.accountId
  | .loaded p | .cycle p .. => some p.watch.accountId
  | .bounded s | .scanning s .. | .paged s .. | .scanned s => some s.pass.watch.accountId

/-- The account that an edit works for. -/
@[simp]
def Edit.account : Edit → Option Id
  | .idle => none
  | .loaded action _ => some action.accountId
  | .replacing _ account .. => some account

/-- The account that a thread works for; the reaper works for all. -/
@[simp]
def Thread.account (o : Owner) : Thread → Option Id
  | .drain d => d.account o
  | .flush f => f.account
  | .trigger t => t.account
  | .edit e => e.account
  | .reap _ | .env => none

/-- A thread at rest. -/
@[simp]
def Thread.rest : Thread → Thread
  | .drain d => .drain d.rest
  | .flush f => .flush f.rest
  | .trigger _ => .trigger .idle
  | .edit _ => .edit .idle
  | t => t

/-- A thread as an account sees it. -/
def Thread.of (o : Owner) (a : Id) (t : Thread) : Thread :=
  if ∃ b ∈ t.account o, b ≠ a then t.rest else t

/-- What a thread holds names ids of the account that it works for. -/
def Thread.Owned (o : Owner) : Thread → Prop
  | .drain (.candidate _ run) => o.run run.id = run.accountId
  | .drain d => ∀ h ∈ d.holding, o.run h.run.id = h.run.accountId
  | .flush f => ∀ s ∈ f.slice, ∀ r ∈ s.batch, r.accountId = s.window.accountId
  | .trigger (.cycle p _ feeds) =>
    ∀ f ∈ feeds, f.accountId = p.watch.accountId ∧ o.watchFeed f.id = f.accountId
  | .trigger (.bounded s) | .trigger (.scanning s ..) | .trigger (.paged s ..)
  | .trigger (.scanned s) =>
    ∀ f ∈ s.watchFeed :: s.rest, f.accountId = s.pass.watch.accountId ∧ o.watchFeed f.id = f.accountId
  | .edit (.loaded action _) => o.action action.id = action.accountId
  | .edit (.replacing _ account path ..) => o.path path = account
  | _ => True

/-- A step that gives no id to a second account: the rows after it have their own account's ids, and
an edit locks a path of its own account. -/
def Owner.Keeps (o : Owner) : StepCond World Thread := fun _ _ w t =>
  o.Names w ∧ ∀ mint account path existing specs,
    t = .edit (.replacing mint account path existing specs) → o.path path = account

/-! ## Steps -/

section Threads

variable {o : Owner} {a b : Id} {t : Thread}

theorem Thread.of_own (h : ∀ b ∈ t.account o, b = a) : t.of o a = t :=
  if_neg fun ⟨b, hb, hne⟩ => hne (h b hb)

theorem Thread.of_none (h : t.account o = none) : t.of o a = t := by
  apply Thread.of_own
  rw [h]
  exact nofun

theorem Thread.of_other (h : b ∈ t.account o) (hb : b ≠ a) : t.of o a = t.rest := if_pos ⟨b, h, hb⟩

theorem Thread.Idle.of (h : t.Idle) : (t.of o a).Idle := by
  unfold Thread.of
  split
  · cases t with
    | drain d =>
      obtain rfl : d = .idle := h
      rfl
    | reap r => exact h
    | flush f =>
      obtain rfl : f = .idle := h
      rfl
    | trigger t => rfl
    | edit e => rfl
    | env => trivial
  · exact h

end Threads

section Steps

variable {C : Type} {S : Settings} {E : Executors} {R : Registry C} {on : Component → Prop} {o : Owner}
  {a : Id} {w w' : World}

/-- What a step looks like in an account's part. -/
def PartStep (S : Settings) (E : Executors) (R : Registry C) (on : Component → Prop) (o : Owner) (a : Id)
    (t : Thread) (w w' : World) (t' : Thread) : Prop :=
  System S E R on (t.of o a) (w.of o a) (w'.of o a) (t'.of o a) ∨
    (w'.of o a = w.of o a ∧ t'.of o a = t.of o a)

theorem dueRuns_of {now : Time} {run : WatchActionRun} (ha : run.accountId = a)
    (h : run ∈ dueRuns S w.windows now w.runs) :
    run ∈ dueRuns S (w.of o a).windows now (w.of o a).runs := by
  rw [dueRuns, List.mem_filter, decide_eq_true_eq] at h ⊢
  obtain ⟨hr, hs, hn, ht, hwin⟩ := h
  refine ⟨List.mem_filter.mpr ⟨hr, decide_eq_true ha⟩, hs, hn, ht, ?_⟩
  subst ha
  exact fun hk => hwin (hasWindow_filter.mp hk)

/-- A row of the account has another id than another account's run. -/
theorem id_ne_of_names (hw : o.Names w) {run : WatchActionRun} (hrun : o.run run.id = run.accountId)
    (ha : run.accountId ≠ a) {r : WatchActionRun} (hr : r ∈ w.runs)
    (hacc : decide (r.accountId = a) = true) : r.id ≠ run.id := by
  intro hid
  have hown := hw.runs r hr
  rw [hid, hrun] at hown
  exact ha (hown.trans (of_decide_eq_true hacc))

theorem PartStep.own {t t' : Thread} (ht : ∀ b ∈ t.account o, b = a) (ht' : ∀ b ∈ t'.account o, b = a)
    (h : System S E R on t (w.of o a) (w'.of o a) t') : PartStep S E R on o a t w w' t' :=
  .inl (by rwa [Thread.of_own ht, Thread.of_own ht'])

/-- A step on another account's behalf. -/
theorem PartStep.hidden {t t' : Thread} {b b' : Id} (hb : b ≠ a) (hb' : b' ≠ a)
    (hw : w'.of o a = w.of o a) (ht : b ∈ t.account o) (ht' : b' ∈ t'.account o)
    (hrest : t'.rest = t.rest) : PartStep S E R on o a t w w' t' :=
  .inr ⟨hw, by rw [Thread.of_other ht hb, Thread.of_other ht' hb', hrest]⟩

/-- A step into another account's work. -/
theorem PartStep.enters {t t' : Thread} {b : Id} (hb : b ≠ a) (hw : w'.of o a = w.of o a)
    (ht : t.account o = none) (ht' : b ∈ t'.account o) (hrest : t'.rest = t) :
    PartStep S E R on o a t w w' t' :=
  .inr ⟨hw, by rw [Thread.of_other ht' hb, hrest, Thread.of_none ht]⟩

/-- A step out of another account's work. -/
theorem PartStep.leaves {t t' : Thread} {b : Id} (hb : b ≠ a) (hw : w'.of o a = w.of o a)
    (ht : b ∈ t.account o) (ht' : t'.account o = none) (hrest : t.rest = t') :
    PartStep S E R on o a t w w' t' :=
  .inr ⟨hw, by rw [Thread.of_other ht hb, hrest, Thread.of_none ht']⟩

theorem log_of {e : Event} (log : List Event) (he : e.account o = a) :
    (e :: log).filter (fun e => decide (e.account o = a)) =
      e :: log.filter fun e => decide (e.account o = a) :=
  List.filter_cons_of_pos (decide_eq_true he)

theorem log_of_ne {e : Event} (log : List Event) (he : e.account o ≠ a) :
    (e :: log).filter (fun e => decide (e.account o = a)) =
      log.filter fun e => decide (e.account o = a) :=
  List.filter_cons_of_neg fun h => he (of_decide_eq_true h)

/-- A statement on the runs of an account, with its log entry. -/
theorem update_of {p : WatchActionRun → Bool} {f : WatchActionRun → WatchActionRun} {e : Event}
    (hf : ∀ r, (f r).accountId = r.accountId) (he : e.account o = a) :
    ({ w with runs := Table.update p f w.runs, log := e :: w.log } : World).of o a =
      { w.of o a with runs := Table.update p f (w.of o a).runs, log := e :: (w.of o a).log } := by
  have hruns : (Table.update p f w.runs).filter (fun r => decide (r.accountId = a)) =
      Table.update p f (w.runs.filter fun r => decide (r.accountId = a)) :=
    Table.filter_update fun r => by rw [hf r]
  simp only [World.of, hruns, log_of _ he]

/-- A statement on the runs of another account. -/
theorem update_of_ne {p : WatchActionRun → Bool} {f : WatchActionRun → WatchActionRun} {e : Event}
    (hf : ∀ r, (f r).accountId = r.accountId) (he : e.account o ≠ a)
    (hp : ∀ r ∈ w.runs, decide (r.accountId = a) = true → p r = false) :
    ({ w with runs := Table.update p f w.runs, log := e :: w.log } : World).of o a = w.of o a := by
  have hruns : (Table.update p f w.runs).filter (fun r => decide (r.accountId = a)) =
      w.runs.filter fun r => decide (r.accountId = a) :=
    Table.filter_update_of_not (fun r => by rw [hf r]) hp
  simp only [World.of, hruns, log_of_ne _ he]

theorem claim_of {run r : WatchActionRun} {now : Time} (hrun : o.run run.id = a) :
    ({ w with
      runs := claimRun S run now w.runs
      log := .claimed run.id (r.attempts + 1) now w.clock :: w.log } : World).of o a =
    { w.of o a with
      runs := claimRun S run now (w.of o a).runs
      log := .claimed run.id (r.attempts + 1) now w.clock :: (w.of o a).log } :=
  update_of (fun _ => rfl) hrun

theorem complete_of {h : Holding} {action : Option WatchAction} {res : ActionResult} {d : Option Id}
    (hrun : o.run h.run.id = a) :
    ({ w with
      runs := h.complete S action res d w.runs
      log := .completed h.run.id h.claim :: w.log } : World).of o a =
    { w.of o a with
      runs := h.complete S action res d (w.of o a).runs
      log := .completed h.run.id h.claim :: (w.of o a).log } :=
  update_of (fun _ => rfl) hrun

theorem claim_of_ne (hw : o.Names w) {run r : WatchActionRun} {now : Time}
    (hrun : o.run run.id = run.accountId) (ha : run.accountId ≠ a) :
    ({ w with
      runs := claimRun S run now w.runs
      log := .claimed run.id (r.attempts + 1) now w.clock :: w.log } : World).of o a = w.of o a := by
  refine update_of_ne (fun _ => rfl) (fun h => ha (hrun.symm.trans h)) fun x hx hacc => ?_
  rw [Bool.eq_false_iff, ne_eq, claimGuard_iff]
  exact fun hg => id_ne_of_names hw hrun ha hx hacc hg.1

theorem complete_of_ne (hw : o.Names w) {h : Holding} {action : Option WatchAction} {res : ActionResult}
    {d : Option Id} (hrun : o.run h.run.id = h.run.accountId) (ha : h.run.accountId ≠ a) :
    ({ w with
      runs := h.complete S action res d w.runs
      log := .completed h.run.id h.claim :: w.log } : World).of o a = w.of o a := by
  refine update_of_ne (fun _ => rfl) (fun h => ha (hrun.symm.trans h)) fun x hx hacc => ?_
  rw [Bool.eq_false_iff, ne_eq, completeGuard_iff]
  exact fun hg => id_ne_of_names hw hrun ha hx hacc hg.1

theorem resolves_of {run : WatchActionRun} {action : Option WatchAction} {res : ActionResult}
    {d : Option Id} (ha : run.accountId = a) (h : Resolves E w.items run action res d) :
    Resolves E (w.of o a).items run action res d := by
  cases h with
  | actionGone => exact .actionGone
  | itemGone hi => exact .itemGone fun hi' => hi ((hasItem_filter ha).mp hi')
  | noExecutor hi he => exact .noExecutor ((hasItem_filter ha).mpr hi) he
  | raises hi he => exact .raises ((hasItem_filter ha).mpr hi) he
  | returns hi he outcome d => exact .returns ((hasItem_filter ha).mpr hi) he outcome d

theorem lookupSuccessor_of {action : Option WatchAction} {res : ActionResult} :
    lookupSuccessor (w.of o a).actions a action res = lookupSuccessor w.actions a action res := by
  unfold lookupSuccessor
  split
  · refine Option.bind_congr fun x _ => ?_
    exact nextInChain_filter
  · rfl

theorem any_filter_of_false {α : Type} {p q : α → Bool} {l : List α} (h : l.any p = false) :
    (l.filter q).any p = false := by
  rw [List.any_eq_false] at h ⊢
  exact fun x hx => h x (List.mem_of_mem_filter hx)

/-- **A drain worker's step in an account's part.** -/
theorem Drain.Step.of {d d' : Drain} (h : Drain.Step S E R d w w' d') (hon : on .drain)
    (hw : o.Names w) (hd : (Thread.drain d).Owned o) :
    PartStep S E R on o a (.drain d) w w' (.drain d') := by
  cases h with
  | start =>
    exact .own (by simp) (by simp)
      (.drain hon .start)
  | @candidate _ now run hdue =>
    by_cases ha : run.accountId = a
    · exact .own (by simp)
        (by simpa using ha) (.drain hon (.candidate (dueRuns_of ha hdue)))
    · exact .enters ha rfl rfl rfl rfl
  | @claim _ now run r hr hg =>
    have hrun : o.run run.id = run.accountId := hd
    by_cases ha : run.accountId = a
    · have hacc : r.accountId = a := by
        rw [← hw.runs r hr, (claimGuard_iff.mp hg).1, hrun, ha]
      refine .own (by simpa using ha) (by simpa using hrun.trans ha) (.drain hon ?_)
      rw [claim_of (hrun.trans ha)]
      exact .claim (List.mem_filter.mpr ⟨hr, decide_eq_true hacc⟩) hg
    · exact .hidden ha (hrun ▸ ha) (claim_of_ne hw hrun ha) rfl rfl rfl
  | @skip _ now run hlost =>
    by_cases ha : run.accountId = a
    · exact .own (by simpa using ha)
        (by simp) (.drain hon (.skip (any_filter_of_false hlost)))
    · exact .leaves ha rfl rfl rfl rfl
  | @refresh _ now id claim r hr hid =>
    have hacc : o.run id = r.accountId := hid ▸ hw.runs r hr
    by_cases ha : r.accountId = a
    · exact .own (by simpa using hacc.trans ha)
        (by simpa using ha)
        (.drain hon (.refresh (List.mem_filter.mpr ⟨hr, decide_eq_true ha⟩) hid))
    · exact .hidden (hacc ▸ ha) ha rfl rfl rfl rfl
  | @resolve _ h =>
    by_cases ha : h.run.accountId = a
    · have hstep := Drain.Step.resolve (S := S) (E := E) (R := R) (w := w.of o a) (h := h)
      have hget : getAction h.run.accountId h.run.actionId (w.of o a).actions =
          getAction h.run.accountId h.run.actionId w.actions := by
        rw [ha]
        exact getAction_filter
      rw [hget] at hstep
      exact .own (by simpa using ha)
        (by simpa using ha) (.drain hon hstep)
    · exact .hidden ha ha rfl rfl rfl rfl
  | @judge _ h action res d hres =>
    by_cases ha : h.run.accountId = a
    · exact .own (by simpa using ha)
        (by simpa using ha) (.drain hon (.judge (resolves_of ha hres)))
    · exact .hidden ha ha rfl rfl rfl rfl
  | @lookup _ h action res d =>
    by_cases ha : h.run.accountId = a
    · have hstep : Drain.Step S E R (.judged h action res d) (w.of o a) _ _ := .lookup
      have hsucc : lookupSuccessor (w.of o a).actions h.run.accountId action res =
          lookupSuccessor w.actions h.run.accountId action res := by
        rw [ha]
        exact lookupSuccessor_of
      rw [hsucc] at hstep
      exact .own (by simpa using ha)
        (by simpa using ha) (.drain hon hstep)
    · exact .hidden ha ha rfl rfl rfl rfl
  | @commit _ _ h action succ res d mint hwin hm hb hadv =>
    have hrun : o.run h.run.id = h.run.accountId := hd h rfl
    by_cases ha : h.run.accountId = a
    · obtain ⟨r, hr, hg⟩ := List.any_eq_true.mp hwin
      have hacc : r.accountId = a := by
        rw [← hw.runs r hr, (completeGuard_iff.mp hg).1, hrun, ha]
      have hwin' : completeWins h.run (w.of o a).runs = true :=
        List.any_eq_true.mpr ⟨r, List.mem_filter.mpr ⟨hr, decide_eq_true hacc⟩, hg⟩
      have hb' : ¬ Blocked R (w.of o a) h.run.accountId succ := by
        rw [ha] at hb ⊢
        exact not_blocked_of hb
      rw [ha] at hadv
      have hadv' := enqueueNextBatch_of hadv (o := o)
      rw [complete_of (hrun.trans ha), ← ha] at hadv'
      exact .own (by simpa using ha) (by simp)
        (.drain hon (.commit hwin' (minted_filter hm _) hb' (by simpa [ha] using hadv')))
    · exact .leaves ha ((enqueueNextBatch_of_ne ha hadv).trans (complete_of_ne hw hrun ha)) rfl rfl rfl
  | @lose _ h action succ res d hl =>
    by_cases ha : h.run.accountId = a
    · exact .own (by simpa using ha)
        (by simp) (.drain hon (.lose (any_filter_of_false hl)))
    · exact .leaves ha rfl rfl rfl rfl
  | crash =>
    rw [PartStep, Thread.of_none (t := .drain .idle) rfl]
    refine .inl ?_
    unfold Thread.of
    split
    · exact .drain hon .crash
    · exact .drain hon .crash

/-- A reaper's step in an account's part: the reaper works for every account. -/
theorem Reap.Step.of {r r' : Reap} (h : Reap.Step S r w w' r') (hon : on .reap) :
    PartStep S E R on o a (.reap r) w w' (.reap r') := by
  refine .own (by simp) (by simp) (.reap hon ?_)
  cases h with
  | start => exact .start
  | @exhausted _ now =>
    have hruns : (reapExhausted S now w.runs).filter (fun r => decide (r.accountId = a)) =
        reapExhausted S now (w.runs.filter fun r => decide (r.accountId = a)) :=
      Table.filter_update fun _ => rfl
    simp only [World.of, hruns]
    exact .exhausted
  | @retryable _ now =>
    have hruns : (reapRetryable S now w.runs).filter (fun r => decide (r.accountId = a)) =
        reapRetryable S now (w.runs.filter fun r => decide (r.accountId = a)) :=
      Table.filter_update fun _ => rfl
    simp only [World.of, hruns]
    exact .retryable
  | crash => exact .crash

theorem unlock_of {path : Id} {paths : List Id} (ha : o.path path = a) :
    (paths.erase path).filter (fun p => decide (o.path p = a)) =
      (paths.filter fun p => decide (o.path p = a)).erase path :=
  erase_filter (decide_eq_true ha)

theorem unlock_of_ne {path : Id} {paths : List Id} (ha : o.path path ≠ a) :
    (paths.erase path).filter (fun p => decide (o.path p = a)) =
      paths.filter fun p => decide (o.path p = a) :=
  erase_filter_of_not (decide_eq_false ha)

/-- What happens around the passes, in an account's part. -/
theorem Env.Step.of {k : Component} (h : Env.Step k w w') (hon : on k) :
    PartStep S E R on o a .env w w' .env := by
  cases h with
  | clock t => exact .own (by simp) (by simp) (.env hon (.clock t))
  | @recordItems _ new hn hf =>
    refine .own (by simp) (by simp) (.env hon ?_)
    simp only [World.of, List.filter_append]
    refine .recordItems ((List.filter_sublist.map _).nodup hn) fun i hi j hj => ?_
    exact hf i (List.mem_of_mem_filter hi) j (List.mem_of_mem_filter hj)
  | pruneItems p =>
    refine .own (by simp) (by simp) (.env hon ?_)
    have hitems : (w.items.filter p).filter (fun i => decide (i.accountId = a)) =
        (w.items.filter fun i => decide (i.accountId = a)).filter p := List.filter_comm ..
    simp only [World.of, hitems]
    exact .pruneItems p
  | deleteRuns p =>
    refine .own (by simp) (by simp) (.env hon ?_)
    have hruns : (w.runs.filter p).filter (fun r => decide (r.accountId = a)) =
        (w.runs.filter fun r => decide (r.accountId = a)).filter p := List.filter_comm ..
    simp only [World.of, hruns]
    exact .deleteRuns p
  | @expireLock _ path =>
    by_cases ha : o.path path = a
    · refine .own (by simp) (by simp) (.env hon ?_)
      simp only [World.of, unlock_of ha]
      exact .expireLock
    · exact .inr ⟨by simp only [World.of, unlock_of_ne ha], rfl⟩

/-! ## A flush -/

variable {s : Slice} {x : Settle} {succ : Option WatchAction} {mint : Id → Id} {locked drained : Bool}

theorem runs_of {runs : List WatchActionRun} :
    ({ w with runs := runs } : World).of o a =
      { w.of o a with runs := runs.filter fun r => decide (r.accountId = a) } := rfl

theorem runs_of_ne {runs : List WatchActionRun} (h : runs.filter (fun r => decide (r.accountId = a)) =
    w.runs.filter fun r => decide (r.accountId = a)) :
    ({ w with runs := runs } : World).of o a = w.of o a := by
  rw [runs_of, h]
  rfl

theorem lock_of (hs : s.window.accountId = a) :
    ({ w with locked := s.window.key :: w.locked } : World).of o a =
      { w.of o a with locked := s.window.key :: (w.of o a).locked } := by
  have hlocks : (s.window.key :: w.locked).filter (fun k => decide (k.1 = a)) =
      s.window.key :: w.locked.filter fun k => decide (k.1 = a) :=
    List.filter_cons_of_pos (decide_eq_true hs)
  simp only [World.of, hlocks]

theorem lock_of_ne (hs : s.window.accountId ≠ a) :
    ({ w with locked := s.window.key :: w.locked } : World).of o a = w.of o a := by
  have hlocks : (s.window.key :: w.locked).filter (fun k => decide (k.1 = a)) =
      w.locked.filter fun k => decide (k.1 = a) :=
    List.filter_cons_of_neg fun h => hs (of_decide_eq_true h)
  simp only [World.of, hlocks]

theorem release_of (hs : s.window.accountId = a) :
    (s.release locked w).of o a = s.release locked (w.of o a) := by
  have hlocks : (w.locked.erase s.window.key).filter (fun k => decide (k.1 = a)) =
      (w.locked.filter fun k => decide (k.1 = a)).erase s.window.key := erase_filter (decide_eq_true hs)
  unfold Slice.release
  cases locked with
  | false => rfl
  | true => simp only [World.of, if_true, hlocks]

theorem release_of_ne (hs : s.window.accountId ≠ a) : (s.release locked w).of o a = w.of o a := by
  have hlocks : (w.locked.erase s.window.key).filter (fun k => decide (k.1 = a)) =
      w.locked.filter fun k => decide (k.1 = a) := erase_filter_of_not (decide_eq_false hs)
  unfold Slice.release
  cases locked with
  | false => rfl
  | true => simp only [World.of, if_true, hlocks]

theorem close_of : (s.close locked drained w).of o a = s.close locked drained (w.of o a) := by
  unfold Slice.close
  cases locked && drained with
  | false => rfl
  | true => simp only [World.of, if_true, closeWindow_filter]

theorem close_of_ne (hs : s.window.accountId ≠ a) : (s.close locked drained w).of o a = w.of o a := by
  unfold Slice.close
  cases locked && drained with
  | false => rfl
  | true => simp only [World.of, if_true, closeWindow_of_ne hs]

theorem commit_of (hs : s.window.accountId = a) (h : s.commit S R x succ mint w = .ok w') :
    s.commit S R x succ mint (w.of o a) = .ok (w'.of o a) := by
  unfold Slice.commit at h ⊢
  rw [hs] at h ⊢
  have hadv := enqueueNextBatch_of (o := o) h
  rwa [runs_of, settle_filter] at hadv

theorem commit_of_ne (hs : s.window.accountId ≠ a) (h : s.commit S R x succ mint w = .ok w') :
    w'.of o a = w.of o a :=
  (enqueueNextBatch_of_ne hs h).trans (runs_of_ne (settle_of_ne hs))

theorem successor_of : x.successor (w.of o a).actions a = x.successor w.actions a := by
  cases x with
  | complete action res d =>
    unfold Settle.successor
    dsimp only
    split
    · exact nextInChain_filter
    · rfl
  | close => rfl
  | fail => rfl

theorem fetch_of (hs : s.window.accountId = a) (hbatch : ∀ r ∈ s.batch, r.accountId = s.window.accountId) :
    (∀ r ∈ s.batch, decide (HasItem (w.of o a).items r) = decide (HasItem w.items r)) := by
  intro r hr
  exact decide_eq_decide.mpr (hasItem_filter ((hbatch r hr).trans hs))

/-- **A flush's step in an account's part.** -/
theorem Flush.Step.of {f f' : Flush} (h : Flush.Step S E R f w w' f') (hon : on .flush)
    (hf : (Thread.flush f).Owned o) : PartStep S E R on o a (.flush f) w w' (.flush f') := by
  cases h with
  | start => exact .own (by simp) (by simp) (.flush hon .start)
  | @due _ now window hdue =>
    by_cases ha : window.accountId = a
    · have hmem : window ∈ iterDue now (w.of o a).windows := by
        rw [mem_iterDue] at hdue ⊢
        exact ⟨List.mem_filter.mpr ⟨hdue.1, decide_eq_true ha⟩, hdue.2⟩
      exact .own (by simp) (by simpa using ha) (.flush hon (.due hmem))
    · exact .enters ha rfl rfl rfl rfl
  | @gather _ now window hne =>
    by_cases ha : window.accountId = a
    · have hbatch : digestBatch S window.accountId window.actionId (w.of o a).runs =
          digestBatch S window.accountId window.actionId w.runs := by
        rw [ha]
        exact digestBatch_filter
      have hstep : Flush.Step S E R (.due now window) (w.of o a) _ _ := .gather (hbatch ▸ hne)
      rw [hbatch] at hstep
      exact .own (by simpa using ha) (by simpa using ha) (.flush hon hstep)
    · exact .hidden ha ha rfl rfl rfl rfl
  | @empty _ now window hnil =>
    by_cases ha : window.accountId = a
    · have hbatch : digestBatch S window.accountId window.actionId (w.of o a).runs = [] := by
        rw [ha] at hnil ⊢
        exact digestBatch_filter.trans hnil
      exact .own (by simpa using ha) (by simpa using ha) (.flush hon (.empty hbatch))
    · exact .hidden ha ha rfl rfl rfl rfl
  | @resolve _ s action hget he =>
    by_cases ha : s.window.accountId = a
    · have hget' : getAction s.window.accountId s.window.actionId (w.of o a).actions = some action := by
        rw [ha] at hget ⊢
        exact getAction_filter.trans hget
      exact .own (by simpa using ha) (by simpa using ha) (.flush hon (.resolve hget' he))
    · exact .hidden ha ha rfl rfl rfl rfl
  | @unresolvable _ s hget =>
    by_cases ha : s.window.accountId = a
    · have hget' : getAction s.window.accountId s.window.actionId (w.of o a).actions =
          getAction s.window.accountId s.window.actionId w.actions := by
        rw [ha]
        exact getAction_filter
      have hstep := Flush.Step.unresolvable (S := S) (E := E) (R := R) (w := w.of o a) (s := s)
        (by rwa [hget'])
      rw [hget', show (w.of o a).runs = w.runs.filter _ from rfl, ← completeBatch_filter] at hstep
      exact .own (by simpa using ha) (by simpa using ha) (.flush hon hstep)
    · exact .hidden ha ha (runs_of_ne (completeBatch_of_ne ha)) rfl rfl rfl
  | @fetch _ s action =>
    by_cases ha : s.window.accountId = a
    · have hitems := fetch_of (o := o) (w := w) ha (hf s rfl)
      have hstep : Flush.Step S E R (.resolved s action) (w.of o a) _ _ := .fetch
      rw [List.filter_congr hitems,
        List.filter_congr fun r hr => congrArg (! ·) (hitems r hr)] at hstep
      exact .own (by simpa using ha) (by simpa using ha) (.flush hon hstep)
    · exact .hidden ha ha rfl rfl rfl rfl
  | @gone _ s action gone =>
    by_cases ha : s.window.accountId = a
    · have hstep : Flush.Step S E R (.fetched s action gone) (w.of o a) _ _ := .gone
      rw [show (w.of o a).runs = w.runs.filter _ from rfl, ← completeBatch_filter] at hstep
      refine .own (by simpa using ha) ?_ (.flush hon hstep)
      split <;> simpa using ha
    · split
      · exact .hidden ha ha (runs_of_ne (completeBatch_of_ne ha)) rfl rfl rfl
      · exact .hidden ha ha (runs_of_ne (completeBatch_of_ne ha)) rfl rfl rfl
  | @emit _ s action outcome d hone =>
    by_cases ha : s.window.accountId = a
    · exact .own (by simpa using ha) (by simpa using ha) (.flush hon (.emit outcome d hone))
    · exact .hidden ha ha rfl rfl rfl rfl
  | @raise _ s action =>
    by_cases ha : s.window.accountId = a
    · exact .own (by simpa using ha) (by simpa using ha) (.flush hon .raise)
    · exact .hidden ha ha rfl rfl rfl rfl
  | @lookup _ s x =>
    by_cases ha : s.window.accountId = a
    · have hsucc : x.successor (w.of o a).actions s.window.accountId =
          x.successor w.actions s.window.accountId := by
        rw [ha]
        exact successor_of
      have hstep := Flush.Step.lookup (S := S) (E := E) (R := R) (w := w.of o a) (s := s) (x := x)
      rw [hsucc] at hstep
      exact .own (by simpa using ha) (by simpa using ha) (.flush hon hstep)
    · exact .hidden ha ha rfl rfl rfl rfl
  | @check _ w₁ s x succ mint hm hb hl hadv =>
    by_cases ha : s.window.accountId = a
    · have hb' : ¬ Blocked R (w.of o a) s.window.accountId succ := by
        rw [ha] at hb ⊢
        exact not_blocked_of hb
      have hl' : s.window.key ∉ (w.of o a).locked := fun hk => hl (List.mem_of_mem_filter hk)
      have hstep := Flush.Step.check (E := E) (minted_filter hm _) hb' hl' (commit_of ha hadv)
      have hwin : hasWindow (w.of o a).windows s.window.accountId s.window.actionId ↔
          hasWindow w.windows s.window.accountId s.window.actionId := by
        rw [ha]
        exact hasWindow_filter
      have hdrained : IsDrained s.window.accountId s.window.actionId (w₁.of o a).runs ↔
          IsDrained s.window.accountId s.window.actionId w₁.runs := by
        rw [ha]
        exact isDrained_filter
      rw [decide_eq_decide.mpr hwin, decide_eq_decide.mpr (or_congr hdrained (not_congr hwin))] at hstep
      refine .own (by simpa using ha) (by simpa using ha) (.flush hon ?_)
      by_cases hk : hasWindow w.windows s.window.accountId s.window.actionId
      · rw [if_pos hk, lock_of ha]
        rwa [if_pos (hwin.mpr hk)] at hstep
      · rw [if_neg hk]
        rwa [if_neg fun h => hk (hwin.mp h)] at hstep
    · refine .hidden ha ha ?_ rfl rfl rfl
      split
      · exact lock_of_ne ha
      · rfl
  | @commit _ w₁ s x succ mint locked drained hm hb hadv =>
    by_cases ha : s.window.accountId = a
    · have hb' : ¬ Blocked R (s.release locked (w.of o a)) s.window.accountId succ := by
        rw [← release_of ha, ha]
        rw [ha] at hb
        exact not_blocked_of hb
      have hadv' : s.commit S R x succ mint (s.release locked (w.of o a)) = .ok (w₁.of o a) := by
        rw [← release_of ha]
        exact commit_of ha hadv
      refine .own (by simpa using ha) ?_ (.flush hon ?_)
      · split <;> simp [ha]
      · rw [close_of]
        exact .commit (minted_filter hm _) hb' hadv'
    · have hw : (s.close locked drained w₁).of o a = w.of o a :=
        (close_of_ne ha).trans ((commit_of_ne ha hadv).trans (release_of_ne ha))
      split
      · exact .hidden ha ha hw rfl rfl rfl
      · exact .leaves ha hw rfl rfl rfl
  | @abort s _ x succ mint locked drained =>
    by_cases ha : s.window.accountId = a
    · refine .own (by simpa using ha) (by simp) (.flush hon ?_)
      rw [release_of ha]
      exact .abort
    · refine .inl ?_
      rw [Thread.of_none (t := .flush .idle) rfl, Thread.of_other rfl ha, release_of_ne ha]
      exact .flush hon (.crash nofun)
  | crash hcrash =>
    rw [PartStep, Thread.of_none (t := .flush .idle) rfl]
    refine .inl ?_
    unfold Thread.of
    split
    · exact .flush hon (.crash fun _ _ _ _ _ _ => f.rest_ne_closing)
    · exact .flush hon (.crash hcrash)

/-! ## A trigger pass -/

theorem newestItemId_of {feed : Id} : newestItemId a feed (w.of o a).items = newestItemId a feed w.items := by
  unfold newestItemId
  exact congrArg List.max? feedItemIds_filter

theorem page_of {s : Scan} {cursor : Option Id} (ha : s.pass.watch.accountId = a) :
    s.page cursor (w.of o a).items = s.page cursor w.items := by
  unfold Scan.page itemIdsInWindow
  rw [ha, show (w.of o a).items = w.items.filter _ from rfl, feedItemIds_filter]

/-- Log entries of the account. -/
theorem logged_of {es : List Event} (es' : List Event) (h : es.filter (fun e => decide (e.account o = a)) =
    es' ++ w.log.filter fun e => decide (e.account o = a)) :
    ({ w with log := es } : World).of o a = { w.of o a with log := es' ++ (w.of o a).log } := by
  simp only [World.of, h]

/-- Log entries of another account. -/
theorem logged_of_ne {es : List Event} (h : es.filter (fun e => decide (e.account o = a)) =
    w.log.filter fun e => decide (e.account o = a)) :
    ({ w with log := es } : World).of o a = w.of o a := by
  simp only [World.of, h]

theorem advance_of {s : Scan} (hf : o.watchFeed s.watchFeed.id = a) :
    ({ w with
      watchFeeds := advanceWatermark s.watchFeed.id s.through w.watchFeeds
      log := .scanned s.watchFeed.id s.visible :: w.log } : World).of o a =
    { w.of o a with
      watchFeeds := advanceWatermark s.watchFeed.id s.through (w.of o a).watchFeeds
      log := .scanned s.watchFeed.id s.visible :: (w.of o a).log } := by
  have hfeeds : (advanceWatermark s.watchFeed.id s.through w.watchFeeds).filter
      (fun f => decide (f.accountId = a)) =
      advanceWatermark s.watchFeed.id s.through (w.watchFeeds.filter fun f => decide (f.accountId = a)) :=
    Table.filter_update fun _ => rfl
  have hlog := log_of w.log (show (Event.scanned s.watchFeed.id s.visible).account o = a from hf)
  simp only [World.of, hfeeds, hlog]

theorem advance_of_ne {s : Scan} (hw : o.Names w) (hf : o.watchFeed s.watchFeed.id ≠ a) :
    ({ w with
      watchFeeds := advanceWatermark s.watchFeed.id s.through w.watchFeeds
      log := .scanned s.watchFeed.id s.visible :: w.log } : World).of o a = w.of o a := by
  have hfeeds : (advanceWatermark s.watchFeed.id s.through w.watchFeeds).filter
      (fun f => decide (f.accountId = a)) = w.watchFeeds.filter fun f => decide (f.accountId = a) := by
    refine Table.filter_update_of_not (fun _ => rfl) fun f hmem hacc => ?_
    rw [decide_eq_false_iff_not]
    intro hid
    exact hf ((hid ▸ hw.watchFeeds f hmem).trans (of_decide_eq_true hacc))
  have hlog := log_of_ne w.log
    (show (Event.scanned s.watchFeed.id s.visible).account o ≠ a from hf)
  simp only [World.of, hfeeds, hlog]

/-- **A trigger pass's step in an account's part.** -/
theorem Trigger.Step.of {t t' : Trigger} (h : Trigger.Step R t w w' t') (hon : on .trigger)
    (hw : o.Names w) (ht : (Thread.trigger t).Owned o) :
    PartStep S E R on o a (.trigger t) w w' (.trigger t') := by
  cases h with
  | @start _ watch hmem =>
    by_cases ha : watch.accountId = a
    · exact .own (by simp) (by simpa using ha)
        (.trigger hon (.start (List.mem_filter.mpr ⟨hmem, decide_eq_true ha⟩)))
    · exact .enters ha rfl rfl rfl rfl
  | @head _ now watch head interval hh hi =>
    by_cases ha : watch.accountId = a
    · have hh' : (listForPath watch.accountId watch.initialPathId (w.of o a).actions).head? = some head := by
        rw [ha] at hh ⊢
        exact (congrArg List.head? listForPath_filter).trans hh
      exact .own (by simpa using ha) (by simpa using ha) (.trigger hon (.head hh' hi))
    · exact .hidden ha ha rfl rfl rfl rfl
  | @feeds _ p =>
    by_cases ha : p.watch.accountId = a
    · have hstep := Trigger.Step.feeds (R := R) (w := w.of o a) (p := p)
      rw [show (w.of o a).watchFeeds = w.watchFeeds.filter _ from rfl, watchFeedsOf_filter ha] at hstep
      exact .own (by simpa using ha) (by simpa using ha) (.trigger hon hstep)
    · exact .hidden ha ha rfl rfl rfl rfl
  | @missing _ p sched f rest hf =>
    by_cases ha : p.watch.accountId = a
    · exact .own (by simpa using ha) (by simpa using ha)
        (.trigger hon (.missing fun feed hfeed => hf feed (List.mem_of_mem_filter hfeed)))
    · exact .hidden ha ha rfl rfl rfl rfl
  | @emptyFeed _ p sched f rest hn =>
    by_cases ha : p.watch.accountId = a
    · have hn' : newestItemId p.watch.accountId f.feedId (w.of o a).items = none := by
        rw [ha] at hn ⊢
        exact newestItemId_of.trans hn
      exact .own (by simpa using ha) (by simpa using ha) (.trigger hon (.emptyFeed hn'))
    · exact .hidden ha ha rfl rfl rfl rfl
  | @atHead _ p sched f rest through hn hl =>
    have hacc : f.accountId = p.watch.accountId ∧ o.watchFeed f.id = f.accountId :=
      ht f List.mem_cons_self
    by_cases ha : p.watch.accountId = a
    · have hn' : newestItemId p.watch.accountId f.feedId (w.of o a).items = some through := by
        rw [ha] at hn ⊢
        exact newestItemId_of.trans hn
      have hstep : Trigger.Step R (.cycle p sched (f :: rest)) (w.of o a) _ (.cycle p sched rest) :=
        .atHead hn' hl
      have hitems : feedItemIds p.watch.accountId f.feedId (w.of o a).items =
          feedItemIds p.watch.accountId f.feedId w.items := by
        rw [ha]
        exact feedItemIds_filter
      rw [hitems] at hstep
      refine .own (by simpa using ha) (by simpa using ha) (.trigger hon ?_)
      have hscan (visible : List Id) : (Event.scanned f.id visible).account o = a :=
        hacc.2.trans (hacc.1.trans ha)
      have hbound : (Event.bounded p.watch.accountId f.feedId through).account o = a := ha
      rw [logged_of [_, _] ((log_of _ (hscan _)).trans (congrArg _ (log_of _ hbound)))]
      exact hstep
    · refine .hidden ha ha (logged_of_ne ?_) rfl rfl rfl
      rw [log_of_ne, log_of_ne]
      · exact ha
      · exact fun h => ha (hacc.1.symm.trans (hacc.2.symm.trans h))
  | @bound _ p sched f rest through hn hl =>
    by_cases ha : p.watch.accountId = a
    · have hn' : newestItemId p.watch.accountId f.feedId (w.of o a).items = some through := by
        rw [ha] at hn ⊢
        exact newestItemId_of.trans hn
      have hstep : Trigger.Step R (.cycle p sched (f :: rest)) (w.of o a) _ _ := .bound hn' hl
      have hitems : feedItemIds p.watch.accountId f.feedId (w.of o a).items =
          feedItemIds p.watch.accountId f.feedId w.items := by
        rw [ha]
        exact feedItemIds_filter
      rw [hitems] at hstep
      refine .own (by simpa using ha) (by simpa using ha) (.trigger hon ?_)
      have hbound : (Event.bounded p.watch.accountId f.feedId through).account o = a := ha
      rw [logged_of [_] (log_of _ hbound)]
      exact hstep
    · exact .hidden ha ha (logged_of_ne (log_of_ne _ (show (Event.bounded p.watch.accountId f.feedId
        through).account o ≠ a from ha))) rfl rfl rfl
  | @openWindow _ s n hi hs hl =>
    by_cases ha : s.pass.watch.accountId = a
    · have hl' : (s.pass.watch.accountId, s.pass.head.id) ∉ (w.of o a).locked :=
        fun hk => hl (List.mem_of_mem_filter hk)
      have hopen : OpenMagpie.openWindow s.pass.watch.accountId s.pass.head.id n s.pass.now (w.of o a).windows =
          ((OpenMagpie.openWindow s.pass.watch.accountId s.pass.head.id n s.pass.now w.windows).1.filter
            (fun v => decide (v.accountId = a)),
            (OpenMagpie.openWindow s.pass.watch.accountId s.pass.head.id n s.pass.now w.windows).2) := by
        rw [ha]
        exact openWindow_filter ..
      have hstep : Trigger.Step R (.bounded s) (w.of o a) _ _ := .openWindow hi hs hl'
      rw [hopen] at hstep
      exact .own (by simpa using ha) (by simpa using ha) (.trigger hon hstep)
    · refine .hidden ha ha ?_ rfl rfl rfl
      simp only [World.of, openWindow_of_ne ha]
  | @joinWindow _ s n at' hi hs =>
    by_cases ha : s.pass.watch.accountId = a
    · exact .own (by simpa using ha) (by simpa using ha) (.trigger hon (.joinWindow hi hs))
    · exact .hidden ha ha rfl rfl rfl rfl
  | @instant _ s hi =>
    by_cases ha : s.pass.watch.accountId = a
    · exact .own (by simpa using ha) (by simpa using ha) (.trigger hon (.instant hi))
    · exact .hidden ha ha rfl rfl rfl rfl
  | @page _ s at' cursor hp =>
    by_cases ha : s.pass.watch.accountId = a
    · have hstep : Trigger.Step R (.scanning s at' cursor) (w.of o a) _ _ :=
        .page (by rwa [page_of ha])
      rw [page_of ha] at hstep
      exact .own (by simpa using ha) (by simpa using ha) (.trigger hon hstep)
    · exact .hidden ha ha rfl rfl rfl rfl
  | @lastPage _ s at' cursor hp =>
    by_cases ha : s.pass.watch.accountId = a
    · exact .own (by simpa using ha) (by simpa using ha)
        (.trigger hon (.lastPage ((page_of ha).trans hp)))
    · exact .hidden ha ha rfl rfl rfl rfl
  | @chunk _ s at' page mint runs' n hm hc =>
    by_cases ha : s.pass.watch.accountId = a
    · have hc' : enqueueChunk mint s.pass.watch.accountId s.pass.watch.id s.pass.head.id
          s.pass.head.kind at' page (w.of o a).runs =
          .ok (runs'.filter fun r => decide (r.accountId = a), n) := by
        rw [ha] at hc ⊢
        exact enqueueChunk_filter hc
      refine .own (by simpa using ha) ?_ (.trigger hon (.chunk (minted_filter hm _) hc'))
      split <;> simpa using ha
    · split
      · exact .hidden ha ha (runs_of_ne (enqueueChunk_of_ne ha hc)) rfl rfl rfl
      · exact .hidden ha ha (runs_of_ne (enqueueChunk_of_ne ha hc)) rfl rfl rfl
  | @advance _ s hrow =>
    have hacc : s.watchFeed.accountId = s.pass.watch.accountId ∧
        o.watchFeed s.watchFeed.id = s.watchFeed.accountId := ht s.watchFeed List.mem_cons_self
    by_cases ha : s.pass.watch.accountId = a
    · refine .own (by simpa using ha) (by simpa using ha) (.trigger hon ?_)
      rw [advance_of (hacc.2.trans (hacc.1.trans ha))]
      obtain ⟨f, hmem, hid⟩ := hrow
      have hf : f.accountId = a := by
        rw [← hw.watchFeeds f hmem, hid, hacc.2, hacc.1, ha]
      exact .advance ⟨f, List.mem_filter.mpr ⟨hmem, decide_eq_true hf⟩, hid⟩
    · exact .hidden ha ha (advance_of_ne hw fun h => ha (hacc.1.symm.trans (hacc.2.symm.trans h)))
        rfl rfl rfl
  | @done _ p sched =>
    by_cases ha : p.watch.accountId = a
    · exact .own (by simpa using ha) (by simp) (.trigger hon .done)
    · exact .leaves ha rfl rfl rfl rfl
  | crash =>
    rw [PartStep, Thread.of_none (t := .trigger .idle) rfl]
    refine .inl ?_
    unfold Thread.of
    split
    · exact .trigger hon .crash
    · exact .trigger hon .crash

/-! ## An edit -/

theorem setConfig_account {action : WatchAction} {spec : WatchActionInput} {x : ChainWrite}
    (hx : setConfig R action spec = .ok x) : x.account = action.accountId := by
  obtain ⟨prior, -, hx⟩ := Except.bind_eq_ok.mp hx
  obtain ⟨merged, -, hx⟩ := Except.bind_eq_ok.mp hx
  obtain rfl := Except.pure_eq_ok.mp hx
  rfl

theorem add_account {newId account path : Id} {spec : WatchActionInput} {rank : Option ℤ}
    {actions : List WatchAction} {x : ChainWrite}
    (hx : add R newId account path spec rank actions = .ok x) : x.account = account := by
  obtain ⟨config, -, hx⟩ := Except.bind_eq_ok.mp hx
  obtain rfl := Except.pure_eq_ok.mp hx
  rfl

theorem replaceChain_account {mint : Id → Id} {account path : Id} {existing : List WatchAction}
    {specs : List WatchActionInput} {x : ChainWrite}
    (hx : replaceChain R mint account path existing specs = .ok x) : x.account = account := by
  obtain ⟨acc, -, hx⟩ := Except.bind_eq_ok.mp hx
  obtain ⟨_, -, hx⟩ := Except.bind_eq_ok.mp hx
  obtain rfl := Except.pure_eq_ok.mp hx
  rfl

theorem chainLocked_of {path : Id} {w : World} (ha : o.path path = a) :
    ({ w with chainLocked := w.chainLocked.erase path } : World).of o a =
      { w.of o a with chainLocked := (w.of o a).chainLocked.erase path } := by
  simp only [World.of, unlock_of ha]

theorem chainLocked_of_ne {path : Id} {w : World} (ha : o.path path ≠ a) :
    ({ w with chainLocked := w.chainLocked.erase path } : World).of o a = w.of o a := by
  simp only [World.of, unlock_of_ne ha]

/-- **An edit's step in an account's part.** -/
theorem Edit.Step.of {e e' : Edit} (h : Edit.Step R e w w' e') (hon : on .edit) (hw : o.Names w)
    (he : (Thread.edit e).Owned o) (he' : (Thread.edit e').Owned o) :
    PartStep S E R on o a (.edit e) w w' (.edit e') := by
  cases h with
  | @load _ action spec hmem =>
    by_cases ha : action.accountId = a
    · exact .own (by simp) (by simpa using ha)
        (.edit hon (.load (List.mem_filter.mpr ⟨hmem, decide_eq_true ha⟩)))
    · exact .enters ha rfl rfl rfl rfl
  | @setConfig _ action spec x hx hmem hl =>
    have hacc : x.account = action.accountId := setConfig_account hx
    by_cases ha : action.accountId = a
    · obtain ⟨y, hy, hid⟩ := hmem
      have hname : o.action action.id = action.accountId := he
      have hy' : y.accountId = a := by rw [← hw.actions y hy, hid, hname, ha]
      refine .own (by simpa using ha) (by simp) (.edit hon ?_)
      rw [apply_of (hacc.trans ha) hl]
      exact .setConfig hx ⟨y, List.mem_filter.mpr ⟨hy, decide_eq_true hy'⟩, hid⟩ (hl.of (hacc.trans ha))
    · exact .leaves ha (apply_of_ne (hacc ▸ ha) hl) rfl rfl rfl
  | @add _ newId account path spec rank x hp hx hl =>
    have hacc : x.account = account := add_account hx
    by_cases ha : account = a
    · have hx' : OpenMagpie.add R newId account path spec rank (w.of o a).actions = .ok x := by
        unfold OpenMagpie.add at hx ⊢
        rw [ha] at hx ⊢
        rwa [show (w.of o a).actions = w.actions.filter _ from rfl, listForPath_filter]
      refine .own (by simp) (by simp) (.edit hon ?_)
      rw [apply_of (hacc.trans ha) hl]
      exact .add (fun hmem => hp (List.mem_of_mem_filter hmem)) hx' (hl.of (hacc.trans ha))
    · exact .inr ⟨apply_of_ne (hacc ▸ ha) hl, rfl⟩
  | @remove _ account path id hp hl =>
    by_cases ha : account = a
    · have hx : OpenMagpie.remove account path id (w.of o a).actions =
          OpenMagpie.remove account path id w.actions := by
        unfold OpenMagpie.remove
        rw [ha, show (w.of o a).actions = w.actions.filter _ from rfl, listForPath_filter]
      have hstep : Edit.Step R .idle (w.of o a) _ .idle :=
        .remove (fun hmem => hp (List.mem_of_mem_filter hmem)) (hx ▸ hl.of ha)
      rw [hx] at hstep
      refine .own (by simp) (by simp) (.edit hon ?_)
      rwa [apply_of ha hl]
    · exact .inr ⟨apply_of_ne ha hl, rfl⟩
  | @lockChain _ mint account path specs hp =>
    have hpath : o.path path = account := he'
    by_cases ha : account = a
    · have hlist : listForPath account path (w.of o a).actions = listForPath account path w.actions := by
        rw [ha]
        exact listForPath_filter
      have hstep : Edit.Step R .idle (w.of o a) _ (.replacing mint account path _ specs) :=
        .lockChain fun hmem => hp (List.mem_of_mem_filter hmem)
      rw [hlist] at hstep
      have hlocks : (path :: w.chainLocked).filter (fun p => decide (o.path p = a)) =
          path :: w.chainLocked.filter fun p => decide (o.path p = a) :=
        List.filter_cons_of_pos (decide_eq_true (hpath.trans ha))
      refine .own (by simp) (by simpa using ha) (.edit hon ?_)
      simp only [World.of, hlocks]
      exact hstep
    · have hlocks : (path :: w.chainLocked).filter (fun p => decide (o.path p = a)) =
          w.chainLocked.filter fun p => decide (o.path p = a) :=
        List.filter_cons_of_neg fun h => ha (hpath.symm.trans (of_decide_eq_true h))
      exact .enters ha (by simp only [World.of, hlocks]) rfl rfl rfl
  | @replaceChain _ mint account path existing specs x hx hl =>
    have hpath : o.path path = account := he
    have hacc : x.account = account := replaceChain_account hx
    by_cases ha : account = a
    · refine .own (by simpa using ha) (by simp) (.edit hon ?_)
      have hstep := Edit.Step.replaceChain hx (hl.of (o := o) (hacc.trans ha))
      rw [← apply_of (hacc.trans ha) hl] at hstep
      rwa [show ({ x.apply w with chainLocked := w.chainLocked.erase path } : World).of o a = _ from
        chainLocked_of (w := x.apply w) (hpath.trans ha)]
    · exact .leaves ha ((chainLocked_of_ne (w := x.apply w) fun h => ha (hpath.symm.trans h)).trans
        (apply_of_ne (hacc ▸ ha) hl)) rfl rfl rfl
  | @refused _ mint account path existing specs =>
    have hpath : o.path path = account := he
    by_cases ha : account = a
    · refine .own (by simpa using ha) (by simp) (.edit hon ?_)
      rw [chainLocked_of (hpath.trans ha)]
      exact .refused
    · exact .leaves ha (chainLocked_of_ne fun h => ha (hpath.symm.trans h)) rfl rfl rfl
  | crash =>
    rw [PartStep, Thread.of_none (t := .edit .idle) rfl]
    refine .inl ?_
    unfold Thread.of
    split
    · exact .edit hon .crash
    · exact .edit hon .crash

/-! ## Runs -/

theorem Drain.Step.owned {d d' : Drain} (h : Drain.Step S E R d w w' d') (hw : o.Names w)
    (hd : (Thread.drain d).Owned o) : (Thread.drain d').Owned o := by
  cases h with
  | start => simp [Thread.Owned, Drain.holding]
  | candidate hdue => exact hw.runs _ (List.mem_of_mem_filter hdue)
  | claim => simp [Thread.Owned, Drain.holding]
  | skip => simp [Thread.Owned, Drain.holding]
  | refresh hr hid => simpa [Thread.Owned, Drain.holding] using hw.runs _ hr
  | resolve => exact hd
  | judge => exact hd
  | lookup => exact hd
  | commit => simp [Thread.Owned, Drain.holding]
  | lose => simp [Thread.Owned, Drain.holding]
  | crash => simp [Thread.Owned, Drain.holding]

theorem Flush.Step.owned {f f' : Flush} (h : Flush.Step S E R f w w' f')
    (hf : (Thread.flush f).Owned o) : (Thread.flush f').Owned o := by
  cases h with
  | start => simp [Thread.Owned, Flush.slice]
  | due => simp [Thread.Owned, Flush.slice]
  | gather =>
    simp only [Thread.Owned, Flush.slice, Option.mem_some_iff, forall_eq']
    exact fun r hr => (mem_of_mem_digestBatch hr).2.1
  | empty => simp [Thread.Owned, Flush.slice]
  | resolve => exact hf
  | unresolvable => simp [Thread.Owned, Flush.slice]
  | fetch =>
    simp only [Thread.Owned, Flush.slice, Option.mem_some_iff, forall_eq'] at hf ⊢
    exact fun r hr => hf r (List.mem_of_mem_filter hr)
  | gone =>
    split
    · exact hf
    · exact hf
  | emit => exact hf
  | raise => exact hf
  | lookup => exact hf
  | check => exact hf
  | commit =>
    split
    · simp [Thread.Owned, Flush.slice]
    · simp [Thread.Owned, Flush.slice]
  | abort => simp [Thread.Owned, Flush.slice]
  | crash => simp [Thread.Owned, Flush.slice]

theorem Trigger.Step.owned {t t' : Trigger} (h : Trigger.Step R t w w' t') (hw : o.Names w)
    (ht : (Thread.trigger t).Owned o) : (Thread.trigger t').Owned o := by
  cases h with
  | feeds =>
    intro f hf
    have hmem := List.mem_filter.mp ((List.mem_insertionSort _).mp hf)
    exact ⟨(of_decide_eq_true hmem.2).1, hw.watchFeeds f hmem.1⟩
  | missing => exact fun f hf => ht f (List.mem_cons_of_mem _ hf)
  | emptyFeed => exact fun f hf => ht f (List.mem_cons_of_mem _ hf)
  | atHead => exact fun f hf => ht f (List.mem_cons_of_mem _ hf)
  | bound => exact ht
  | openWindow => exact ht
  | joinWindow => exact ht
  | instant => exact ht
  | page => exact ht
  | lastPage => exact ht
  | chunk =>
    split
    · exact ht
    · exact ht
  | advance => exact fun f hf => ht f (List.mem_cons_of_mem _ hf)
  | _ => trivial

theorem Edit.Step.owned {e e' : Edit} (h : Edit.Step R e w w' e') (hw : o.Names w)
    (hpath : ∀ mint account path existing specs, e' = .replacing mint account path existing specs →
      o.path path = account) : (Thread.edit e').Owned o := by
  cases h with
  | load hmem => exact hw.actions _ hmem
  | lockChain => exact hpath _ _ _ _ _ rfl
  | _ => trivial

/-- A step leaves a thread with ids of the account that it works for. -/
theorem System.owned {t t' : Thread} {c : Conf World Thread} {p : ℕ} (h : System S E R on t w w' t')
    (hw : o.Names w) (ht : t.Owned o) (hok : o.Keeps c p w' t') : t'.Owned o := by
  cases h with
  | drain _ h => exact h.owned hw ht
  | reap => trivial
  | flush _ h => exact h.owned ht
  | trigger _ h => exact h.owned hw ht
  | edit _ h =>
    refine h.owned hw fun mint account path existing specs he => ?_
    exact hok.2 mint account path existing specs (congrArg Thread.edit he)
  | env => trivial

theorem Thread.Idle.owned {t : Thread} (h : t.Idle) : t.Owned o := by
  cases t with
  | drain d =>
    obtain rfl : d = .idle := h
    simp [Thread.Owned, Drain.holding]
  | flush f =>
    obtain rfl : f = .idle := h
    simp [Thread.Owned, Flush.slice]
  | trigger t =>
    obtain rfl : t = .idle := h
    trivial
  | edit e =>
    obtain rfl : e = .idle := h
    trivial
  | _ => trivial

variable {G : World → Prop} {c : Conf World Thread}

/-- **Rows and threads name ids of their own account** in every reachable state. -/
theorem names_owned (hG : ∀ w, G w → o.Names w)
    (h : ReachIn (System S E R on) (Init G) o.Keeps c) :
    o.Names c.shared ∧ ∀ p, (c.thread p).Owned o := by
  refine h.each (L := fun _ t => t.Owned o) ?_ (fun hw ht hs hok => ⟨hok.1, hs.owned hw (ht _) hok⟩)
    fun _ ht _ _ _ => ht _
  exact fun c hc => ⟨hG _ hc.1, fun p => (hc.2 p).owned⟩

/-- **A step of the system in an account's part.** -/
theorem System.of {t t' : Thread} (h : System S E R on t w w' t') (hw : o.Names w) (ht : t.Owned o)
    (ht' : t'.Owned o) : PartStep S E R on o a t w w' t' := by
  cases h with
  | drain hon h => exact h.of hon hw ht
  | reap hon h => exact h.of hon
  | flush hon h => exact h.of hon ht
  | trigger hon h => exact h.of hon hw ht
  | edit hon h => exact h.of hon hw ht ht'
  | env hon h => exact h.of hon

/-- A step of a deployment that serves only one account: every row belongs to it, and the thread works
for it or rests. -/
def Owner.Serves (o : Owner) (a : Id) : StepCond World Thread := fun _ _ w t =>
  w.of o a = w ∧ ∀ b ∈ t.account o, b = a

theorem World.of_of (w : World) : (w.of o a).of o a = w.of o a := by
  simp [World.of]

theorem Thread.account_rest (t : Thread) : t.rest.account o = none := by
  cases t with
  | drain d => cases d <;> rfl
  | flush f => cases f <;> rfl
  | _ => rfl

theorem Thread.account_of (t : Thread) : ∀ b ∈ (t.of o a).account o, b = a := by
  unfold Thread.of
  split
  · rw [Thread.account_rest]
    simp
  · next h => exact fun b hb => by_contra fun hne => h ⟨b, hb, hne⟩

theorem Owner.Keeps.of {c' : Conf World Thread} {p : ℕ} {t : Thread} (h : o.Keeps c p w t) :
    o.Keeps c' p (w.of o a) (t.of o a) := by
  refine ⟨⟨fun r hr => h.1.runs r (List.mem_of_mem_filter hr),
    fun x hx => h.1.actions x (List.mem_of_mem_filter hx),
    fun f hf => h.1.watchFeeds f (List.mem_of_mem_filter hf)⟩, ?_⟩
  intro mint account path existing specs ht
  unfold Thread.of at ht
  split at ht
  · cases t <;> simp at ht
  · exact h.2 mint account path existing specs ht

/-- **An account's part of a run is a run** of a deployment that serves only that account: what any
interleaving does to the account's rows, some interleaving does without the other accounts. -/
theorem account_part (a : Id) (hG : ∀ w, G w → o.Names w)
    (h : ReachIn (System S E R on) (Init G) o.Keeps c) :
    ReachIn (System S E R on) (Init fun w' => ∃ w, G w ∧ w' = w.of o a)
      (fun c p w t => o.Keeps c p w t ∧ o.Serves a c p w t) (c.map (World.of o a) (Thread.of o a)) := by
  refine ReachIn.project ?_ ?_ h
  · exact fun c hc => ⟨⟨c.shared, hc.1, rfl⟩, fun p => (hc.2 p).of⟩
  · intro c p w t hreach hs hok
    obtain ⟨hw, ht⟩ := names_owned hG hreach
    refine (hs.of hw (ht p) (hs.owned hw (ht p) hok)).imp (fun hstep => ?_) id
    exact ⟨hstep, hok.of, World.of_of w, t.account_of⟩

/-- Two accounts with a run each; the ids of a row are the ids of its account. -/
def twoAccounts : World where
  runs := [newRun 1 1 1 1 "log" 1 0 none, newRun 2 2 2 2 "log" 2 0 none]

/-- Every id names its account. -/
def sameOwner : Owner := ⟨id, id, id, id⟩

theorem names_twoAccounts : sameOwner.Names twoAccounts := ⟨by decide, by decide, by decide⟩

theorem keeps_drain {c : Conf World Thread} {p : ℕ} {w : World} {d : Drain} (hw : o.Names w) :
    o.Keeps c p w (.drain d) :=
  ⟨hw, by simp⟩

/-- A worker has claimed the run of account 2, another one that of account 1. -/
theorem account_part_sample : ∃ c : Conf World Thread,
    c.thread 0 = .drain (.claimed 0 2 1) ∧ c.thread 1 = .drain (.claimed 0 1 1) ∧
    (Thread.of sameOwner 1 (c.thread 0) = .drain (.started 0)) ∧
    ReachIn (SampleSystem fun _ => True) (Init fun w' => ∃ w, w = twoAccounts ∧ w' = w.of sameOwner 1)
      (fun c p w t => sameOwner.Keeps c p w t ∧ sameOwner.Serves 1 c p w t)
      (c.map (World.of sameOwner 1) (Thread.of sameOwner 1)) := by
  have h₀ : ReachIn (SampleSystem fun _ => True) (Init fun w => w = twoAccounts) sameOwner.Keeps
      ⟨twoAccounts, fun _ => .drain .idle⟩ := .init ⟨rfl, fun _ => rfl⟩
  have h₁ := h₀.next 0 (.drain trivial .start) rfl rfl (keeps_drain names_twoAccounts)
  have h₂ := h₁.again (.drain trivial (.candidate (by decide : newRun 2 2 2 2 "log" 2 0 none ∈ _)))
    (keeps_drain names_twoAccounts)
  have h₃ := h₂.again (.drain trivial (.claim (by decide : newRun 2 2 2 2 "log" 2 0 none ∈ _) rfl))
    (keeps_drain ⟨by decide, by decide, by decide⟩)
  have h₄ := h₃.next 1 (.drain trivial .start) rfl rfl (keeps_drain ⟨by decide, by decide, by decide⟩)
  have h₅ := h₄.again (.drain trivial (.candidate (by decide : newRun 1 1 1 1 "log" 1 0 none ∈ _)))
    (keeps_drain ⟨by decide, by decide, by decide⟩)
  have h₆ := h₅.again (.drain trivial (.claim (by decide : newRun 1 1 1 1 "log" 1 0 none ∈ _) rfl))
    (keeps_drain ⟨by decide, by decide, by decide⟩)
  refine ⟨_, rfl, rfl, rfl, account_part 1 ?_ h₆⟩
  rintro w rfl
  exact names_twoAccounts

end Steps

end OpenMagpie