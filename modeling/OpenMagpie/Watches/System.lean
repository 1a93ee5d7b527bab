import OpenMagpie.Watches.Drain
import OpenMagpie.Watches.Edit
import OpenMagpie.Watches.Flush
import OpenMagpie.Watches.Trigger

/-!
# The passes together

Any number of drain workers, reapers, flushes, trigger passes and edits over one store, with time
passing, items arriving and rows being deleted around them.

* `Thread`, `Component`, `System`: the threads, and the steps of a choice of components.
* `Init`: every thread idle, over a store that satisfies a condition.
* `RunsOk`, **`reach_runsOk`**: in every reachable state, whatever the components, the id and the
  unique key determine a run, and a flush's slice has no run twice.
* `SampleSystem`: a small deployment to run concrete interleavings in.
-/

set_option autoImplicit false

namespace OpenMagpie

open Interleave

/-- One thread of the system. -/
inductive Thread
  | drain (d : Drain)
  | reap (r : Reap)
  | flush (f : Flush)
  | trigger (t : Trigger)
  | edit (e : Edit)
  | env

/-- A thread before its first step. -/
def Thread.Idle : Thread → Prop
  | .drain d => d = .idle
  | .reap r => r = .idle
  | .flush f => f = .idle
  | .trigger t => t = .idle
  | .edit e => e = .idle
  | .env => True

/-- What can take steps: the passes, and what happens around them. -/
inductive Component
  | drain
  | reap
  | flush
  | trigger
  | edit
  | clock
  | recordItems
  | pruneItems
  | deleteRuns
  | expireLock
  deriving DecidableEq

/-- What happens around the passes: the clock moves, items arrive, rows are deleted, path locks
expire. The clock is the one that the next pass reads; passes on several hosts read their own, so
it may move either way. -/
inductive Env.Step : Component → World → World → Prop
  | clock {w : World} (t : Time) : Step .clock w { w with clock := t }
  | recordItems {w : World} {new : List FeedItem} (hn : (new.map (·.id)).Nodup)
      (hf : ∀ i ∈ new, ∀ j ∈ w.items, j.id ≠ i.id) :
      Step .recordItems w { w with items := w.items ++ new }
  | pruneItems {w : World} (p : FeedItem → Bool) :
      Step .pruneItems w { w with items := w.items.filter p }
  | deleteRuns {w : World} (p : WatchActionRun → Bool) :
      Step .deleteRuns w { w with runs := w.runs.filter p }
  | expireLock {w : World} {path : Id} :
      Step .expireLock w { w with chainLocked := w.chainLocked.erase path }

variable {C : Type} (S : Settings) (E : Executors) (R : Registry C)

/-- **The system** of the components that are `on`. -/
inductive System (on : Component → Prop) : ThreadRel World Thread
  | drain {d d' : Drain} {w w' : World} (hon : on .drain) (h : Drain.Step S E R d w w' d') :
      System on (.drain d) w w' (.drain d')
  | reap {r r' : Reap} {w w' : World} (hon : on .reap) (h : Reap.Step S r w w' r') :
      System on (.reap r) w w' (.reap r')
  | flush {f f' : Flush} {w w' : World} (hon : on .flush) (h : Flush.Step S E R f w w' f') :
      System on (.flush f) w w' (.flush f')
  | trigger {t t' : Trigger} {w w' : World} (hon : on .trigger) (h : Trigger.Step R t w w' t') :
      System on (.trigger t) w w' (.trigger t')
  | edit {e e' : Edit} {w w' : World} (hon : on .edit) (h : Edit.Step R e w w' e') :
      System on (.edit e) w w' (.edit e')
  | env {k : Component} {w w' : World} (hon : on k) (h : Env.Step k w w') :
      System on .env w w' .env

/-- Every thread idle, over a store that satisfies `G`. -/
def Init (G : World → Prop) (c : Conf World Thread) : Prop :=
  G c.shared ∧ ∀ p, (c.thread p).Idle

variable {S E R} in
theorem System.mono {on on' : Component → Prop} (hon : ∀ k, on k → on' k) {t t' : Thread}
    {w w' : World} (h : System S E R on t w w' t') : System S E R on' t w w' t' := by
  cases h with
  | drain ho h => exact .drain (hon _ ho) h
  | reap ho h => exact .reap (hon _ ho) h
  | flush ho h => exact .flush (hon _ ho) h
  | trigger ho h => exact .trigger (hon _ ho) h
  | edit ho h => exact .edit (hon _ ho) h
  | env ho h => exact .env (hon _ ho) h

/-! ## The run table -/

/-- The unique key determines a run. -/
def KeyUnique (runs : List WatchActionRun) : Prop :=
  ∀ r ∈ runs, ∀ r' ∈ runs, r.key = r'.key → r = r'

/-- Ids and keys determine a run, and no run is there twice. -/
structure RunsOk (runs : List WatchActionRun) : Prop where
  ids : IdUnique runs
  keys : (runs.map WatchActionRun.key).Nodup

theorem RunsOk.keyUnique {runs : List WatchActionRun} (h : RunsOk runs) : KeyUnique runs :=
  fun _ hr _ hr' hk => Table.eq_of_key h.keys hr hr' hk

theorem IdUnique.subset {runs runs' : List WatchActionRun} (h : IdUnique runs) (hs : runs' ⊆ runs) :
    IdUnique runs' :=
  fun r hr r' hr' => h r (hs hr) r' (hs hr')

theorem RunsOk.filter {runs : List WatchActionRun} (h : RunsOk runs) (p : WatchActionRun → Bool) :
    RunsOk (runs.filter p) :=
  ⟨h.ids.subset (List.filter_subset_self _), (List.filter_sublist.map _).nodup h.keys⟩

/-- An update that keeps ids and keys. -/
theorem RunsOk.update {runs : List WatchActionRun} (h : RunsOk runs) (p : WatchActionRun → Bool)
    {f : WatchActionRun → WatchActionRun} (hid : ∀ r, (f r).id = r.id)
    (hkey : ∀ r, (f r).key = r.key) : RunsOk (Table.update p f runs) := by
  refine ⟨?_, by rw [Table.map_update _ fun r _ => hkey r]; exact h.keys⟩
  intro x hx y hy hxy
  obtain ⟨r, hr, rfl⟩ := Table.mem_update.mp hx
  obtain ⟨r', hr', rfl⟩ := Table.mem_update.mp hy
  have hi (r : WatchActionRun) : (if p r then f r else r).id = r.id := by split_ifs <;> simp [hid]
  rw [hi, hi] at hxy
  rw [h.ids r hr r' hr' hxy]

theorem RunsOk.completeBatch {runs : List WatchActionRun} (h : RunsOk runs) (account : Id)
    (ids : List Id) (res : ActionResult) (d : Option Id) (k : Option String) (now : Time) :
    RunsOk (completeBatch account ids res d k now runs) := by
  rw [completeBatch_eq_update]
  exact h.update _ (fun _ => rfl) fun _ => rfl

variable {S} in
theorem RunsOk.failBatch {runs : List WatchActionRun} (h : RunsOk runs) (account : Id)
    (ids : List Id) (now : Time) : RunsOk (failBatch S account ids now runs) := by
  unfold OpenMagpie.failBatch
  generalize Batched.batched idInChunk ids = chunks
  induction chunks generalizing runs with
  | nil => exact h
  | cons chunk chunks ih =>
    have hb := h.update (batchGuard account chunk) (f := burnedRow) (fun _ => rfl) fun _ => rfl
    exact ih (hb.update _ (f := exhaustedRow now) (fun _ => rfl) fun _ => rfl)

variable {S} in
theorem RunsOk.complete {runs : List WatchActionRun} (hr : RunsOk runs) (h : Holding)
    (action : Option WatchAction) (res : ActionResult) (d : Option Id) :
    RunsOk (h.complete S action res d runs) :=
  hr.update _ (f := completedRow res _ d _) (fun _ => rfl) fun _ => rfl

variable {S} in
theorem RunsOk.settle {runs : List WatchActionRun} (h : RunsOk runs) (s : Slice) (x : Settle) :
    RunsOk (s.settle S runs x) := by
  cases x with
  | close => exact h
  | complete action res d => exact h.completeBatch ..
  | fail => exact h.failBatch ..

/-- A batch's minted rows keep the table in order. -/
theorem RunsOk.insert {runs runs' : List WatchActionRun} (h : RunsOk runs) {mint : Id → Id}
    (hm : Minted runs mint) {α : Type} {xs : List α} {g : α → Id} {row : α → WatchActionRun}
    (href : ∀ a ∈ xs, ∀ b ∈ xs, g a = g b → row a = row b)
    (hrow : ∀ a, (row a).id = mint (g a))
    (hi : Table.Inserted WatchActionRun.key (xs.map row) runs runs') : RunsOk runs' := by
  refine ⟨?_, hi.nodup h.keys⟩
  refine IdUnique.insert h.ids hm (P := fun i x => ∃ a ∈ xs, g a = i ∧ row a = x) ?_ ?_ ?_
  · rintro i x ⟨a, -, rfl, rfl⟩
    exact hrow a
  · rintro i x y ⟨a, ha, rfl, rfl⟩ ⟨b, hb, hab, rfl⟩
    exact href a ha b hb hab.symm
  · intro x hx
    refine (hi.new x hx).imp_right fun ⟨hm, _⟩ => ?_
    obtain ⟨a, ha, rfl⟩ := List.mem_map.mp hm
    exact ⟨g a, a, ha, rfl, rfl⟩

variable {R} in
/-- An advance keeps the table in order. -/
theorem RunsOk.advance {mint : Id → Id} {account : Id} {batch : List WatchActionRun}
    {succ : Option WatchAction} {now : Time} {w w' : World} (h : RunsOk w.runs)
    (hm : Minted w.runs mint) (hb : IdUnique batch)
    (ha : Advanced R mint account batch succ now w w') : RunsOk w'.runs := by
  have href (nxt : WatchAction) (t : Time) : ∀ a ∈ batch, ∀ b ∈ batch, a.id = b.id →
      newRun (mint a.id) account a.watchId nxt.id nxt.kind a.feedItemId t (some a.id) =
        newRun (mint b.id) account b.watchId nxt.id nxt.kind b.feedItemId t (some b.id) :=
    fun a ha b hb' hab => by rw [hb a ha b hb' hab]
  cases ha with
  | none _ hw => exact hw ▸ h
  | instant nxt _ _ _ _ hr => exact h.insert hm (href nxt _) (fun _ => rfl) hr
  | digest nxt n _ _ _ _ hr => exact h.insert hm (href nxt _) (fun _ => rfl) hr

/-- Minted ids stay new when the ids of a table stay. -/
theorem Minted.of_ids {runs runs' : List WatchActionRun} {mint : Id → Id} (h : Minted runs mint)
    (hi : ∀ r' ∈ runs', ∃ r ∈ runs, r.id = r'.id) : Minted runs' mint :=
  ⟨h.injective, fun i r' hr' => by
    obtain ⟨r, hr, he⟩ := hi r' hr'
    exact he ▸ h.fresh i r hr⟩

/-- The rows of an updated table have the ids of the rows before. -/
theorem ids_update {p : WatchActionRun → Bool} {f : WatchActionRun → WatchActionRun}
    (hid : ∀ r, (f r).id = r.id) {runs : List WatchActionRun} :
    ∀ r' ∈ Table.update p f runs, ∃ r ∈ runs, r.id = r'.id := by
  intro r' hr'
  obtain ⟨r, hr, rfl⟩ := Table.mem_update.mp hr'
  refine ⟨r, hr, ?_⟩
  split_ifs
  · exact (hid r).symm
  · rfl

variable {S} in
theorem ids_complete (h : Holding) (action : Option WatchAction) (res : ActionResult)
    (d : Option Id) (runs : List WatchActionRun) :
    ∀ r' ∈ h.complete S action res d runs, ∃ r ∈ runs, r.id = r'.id :=
  ids_update (f := completedRow res _ d _) fun _ => rfl

variable {S} in
theorem ids_settle (s : Slice) (x : Settle) (runs : List WatchActionRun) :
    ∀ r' ∈ s.settle S runs x, ∃ r ∈ runs, r.id = r'.id := by
  cases x with
  | close => exact fun r hr => ⟨r, hr, rfl⟩
  | complete action res d =>
    simp only [Slice.settle, completeBatch_eq_update]
    exact ids_update (f := completedRow res _ d _) fun _ => rfl
  | fail =>
    simp only [Slice.settle, OpenMagpie.failBatch]
    generalize Batched.batched idInChunk s.ids = chunks
    induction chunks generalizing runs with
    | nil => exact fun r hr => ⟨r, hr, rfl⟩
    | cons chunk chunks ih =>
      intro r hr
      obtain ⟨r₁, h₁, e₁⟩ := ih _ r hr
      obtain ⟨r₂, h₂, e₂⟩ := ids_update (f := exhaustedRow s.now) (fun _ => rfl) r₁ h₁
      obtain ⟨r₃, h₃, e₃⟩ := ids_update (f := burnedRow) (fun _ => rfl) r₂ h₂
      exact ⟨r₃, h₃, e₃.trans (e₂.trans e₁)⟩

/-- A store before anything is logged. -/
structure InOrder (w : World) : Prop where
  runs : RunsOk w.runs
  log : w.log = []

/-! ## Slices -/

/-- The slice a flush works on. -/
def Flush.slice : Flush → Option Slice
  | .gathered s | .resolved s _ | .fetched s .. | .emitting s _ | .settling s _
  | .advancing s .. | .closing s .. => some s
  | _ => none

/-- What every thread keeps about the runs it holds: a flush's slice has no run twice. -/
def Thread.SliceOk : Thread → Prop
  | .flush f => ∀ s ∈ f.slice, RunsOk s.batch
  | _ => True

variable {S} in
theorem RunsOk.digestBatch {runs : List WatchActionRun} (h : RunsOk runs) (account action : Id) :
    RunsOk (digestBatch S account action runs) := by
  refine ⟨h.ids.subset fun r hr => (mem_of_mem_digestBatch hr).1, ?_⟩
  refine ((List.take_sublist _ _).map _).nodup ?_
  rw [((List.perm_insertionSort gatherLe _).map _).nodup_iff]
  exact (h.filter _).keys

theorem Thread.Idle.sliceOk {t : Thread} (h : t.Idle) : t.SliceOk := by
  cases t with
  | flush f =>
    obtain rfl : f = .idle := h
    exact fun _ hs => absurd hs (by simp [Flush.slice])
  | _ => trivial

theorem RunsOk.nil : RunsOk [] := ⟨by simp [IdUnique], by simp⟩

variable {S E R} in
/-- What a flush step does to the slice it holds. -/
theorem Flush.Step.sliceOk {f f' : Flush} {w w' : World} (h : Flush.Step S E R f w w' f')
    (hw : RunsOk w.runs) (hf : ∀ s ∈ f.slice, RunsOk s.batch) : ∀ s ∈ f'.slice, RunsOk s.batch := by
  cases h with
  | start => simp [Flush.slice]
  | due => simp [Flush.slice]
  | gather => simpa [Flush.slice] using hw.digestBatch _ _
  | empty => simpa [Flush.slice] using RunsOk.nil
  | resolve => simpa [Flush.slice] using hf
  | unresolvable => simpa [Flush.slice] using RunsOk.nil
  | fetch => simpa [Flush.slice] using RunsOk.filter (by simpa [Flush.slice] using hf) _
  | gone =>
    split_ifs
    · simpa [Flush.slice] using hf
    · simpa [Flush.slice] using hf
  | emit => simpa [Flush.slice] using hf
  | raise => simpa [Flush.slice] using hf
  | lookup => simpa [Flush.slice] using hf
  | check => simpa [Flush.slice] using hf
  | commit =>
    split_ifs <;> simp [Flush.slice]
  | abort => simp [Flush.slice]
  | crash => simp [Flush.slice]

variable {S E R} in
/-- **Every step keeps the run table in order.** -/
theorem System.runsOk {on : Component → Prop} {t t' : Thread} {w w' : World}
    (h : System S E R on t w w' t') (hw : RunsOk w.runs) (ht : t.SliceOk) :
    RunsOk w'.runs ∧ t'.SliceOk := by
  cases h with
  | drain _ h =>
    refine ⟨?_, trivial⟩
    cases h with
    | claim => exact hw.update _ (fun _ => rfl) fun _ => rfl
    | @commit w w' h action succ res d mint hwin hm hb hadv =>
      exact (hw.complete h action res d).advance (hm.of_ids (ids_complete h action res d w.runs))
        (by simp [IdUnique]) (advanced_of_enqueueNextBatch hadv)
    | _ => exact hw
  | reap _ h =>
    refine ⟨?_, trivial⟩
    cases h with
    | exhausted => exact hw.update _ (fun _ => rfl) fun _ => rfl
    | retryable => exact hw.update _ (fun _ => rfl) fun _ => rfl
    | _ => exact hw
  | flush _ h =>
    refine ⟨?_, h.sliceOk hw ht⟩
    cases h with
    | unresolvable => exact hw.completeBatch ..
    | gone => exact hw.completeBatch ..
    | check => split_ifs <;> exact hw
    | @commit w w' s x succ mint locked drained hm hb hadv =>
      have hr : RunsOk w'.runs := (hw.settle s x).advance
        (hm.of_ids (ids_settle s x w.runs)) (ht s rfl).ids (advanced_of_enqueueNextBatch hadv)
      exact hr
    | _ => exact hw
  | trigger _ h =>
    refine ⟨?_, trivial⟩
    cases h with
    | chunk hm hc =>
      exact hw.insert hm (g := id) (fun a _ b _ hab => congrArg _ hab) (fun _ => rfl)
        (enqueueChunk_inserted hc)
    | _ => exact hw
  | edit _ h =>
    refine ⟨?_, trivial⟩
    cases h <;> exact hw
  | env _ h =>
    refine ⟨?_, trivial⟩
    cases h with
    | deleteRuns p => exact hw.filter p
    | _ => exact hw

variable {S E R} in
/-- **The run table is in order in every reachable state.** -/
theorem reach_runsOk {on : Component → Prop} {G : World → Prop} (hG : ∀ w, G w → RunsOk w.runs)
    {ok : StepCond World Thread} {c : Conf World Thread}
    (h : ReachIn (System S E R on) (Init G) ok c) :
    RunsOk c.shared.runs ∧ ∀ p, (c.thread p).SliceOk := by
  refine h.each (G := fun w => RunsOk w.runs) (L := fun _ t => t.SliceOk) ?_
    (fun hG hL hs _ => hs.runsOk hG (hL _)) fun _ hL _ _ _ => hL _
  exact fun c ⟨hg, hidle⟩ => ⟨hG _ hg, fun p => (hidle p).sliceOk⟩

/-! ## The action table -/

variable {S E R} in
/-- **Only edits write actions**, each in one transaction that clears the windows it has to. -/
theorem System.actions {on : Component → Prop} {t t' : Thread} {w w' : World}
    (h : System S E R on t w w' t') : w'.actions = w.actions ∨
      ∃ (e e' : Edit) (x : ChainWrite) (locks : List Id), t = .edit e ∧ t' = .edit e' ∧
        x.Clears R ∧ x.Lands w ∧
        w' = { x.apply w with chainLocked := locks } := by
  cases h with
  | drain _ h =>
    cases h with
    | commit hwin hm hb hadv => exact .inl (by rw [(advanced_of_enqueueNextBatch hadv).frame])
    | _ => exact .inl rfl
  | reap _ h => cases h <;> exact .inl rfl
  | flush _ h =>
    cases h with
    | check => split_ifs <;> exact .inl rfl
    | @commit w w' s x succ mint locked drained hm hb hadv =>
      refine .inl ?_
      show w'.actions = _
      rw [(advanced_of_enqueueNextBatch hadv).frame]
      rfl
    | _ => exact .inl rfl
  | trigger _ h => cases h <;> exact .inl rfl
  | edit _ h =>
    rcases h.writes with ⟨locks, rfl⟩ | ⟨x, locks, hc, hl, rfl⟩
    · exact .inl rfl
    · exact .inr ⟨_, _, x, locks, rfl, rfl, hc, hl, rfl⟩
  | env _ h => cases h <;> exact .inl rfl

variable {S E R} in
/-- **The action table is in order in every reachable state.** -/
theorem reach_actionsOk {on : Component → Prop} {G : World → Prop}
    (hG : ∀ w, G w → ActionsOk w.actions) {ok : StepCond World Thread} {c : Conf World Thread}
    (h : ReachIn (System S E R on) (Init G) ok c) : ActionsOk c.shared.actions := by
  refine h.invariant (I := fun c => ActionsOk c.shared.actions) (fun c hc => hG _ hc.1) ?_
  intro c p w t hi hs _
  show ActionsOk w.actions
  rcases hs.actions with he | ⟨_, _, x, _, _, _, _, hl, rfl⟩
  · rw [he]
    exact hi
  · exact hl.actionsOk hi

/-! ## A small store -/

/-- A deployment that runs `log` actions. -/
def sampleExecutors : Executors where
  hasImpl kind := kind == "log"
  resultValid _ _ := true

/-- The registry with the `log` kind at the default policy. -/
abbrev sampleRegistry : Registry LogConfig := logRegistry strictMode 60 604800

/-- A stored instant config. -/
def instantConfig : Json := LogConfig.modelDump {}

/-- A stored digest config. -/
def digestConfig : Json :=
  LogConfig.modelDump
    { delivery := .digest, digestIntervalSeconds := 60, digest_requires_interval := minute_pos }

/-- A `log` action of path 1. -/
def sampleAction (id : Id) (config : Json) (rank : ℕ) : WatchAction :=
  ⟨id, 1, 1, "log", config, rank⟩

/-- A pending run of watch 1, due from time 0. -/
def sampleRun (id action item : Id) : WatchActionRun := newRun id 1 1 action "log" item 0 none

/-- A watch of path 1. -/
def sampleWatch : Watch := ⟨1, 1, 1⟩

/-- The watch's subscription to feed 1. -/
def sampleWatchFeed (lastItemId : Option Id) : WatchFeed := ⟨1, 1, 1, 1, lastItemId⟩

/-- An item of feed 1. -/
def sampleItem (id : Id) : FeedItem := { id := id, accountId := 1, feedId := 1 }

/-- The watch, its feed with item 1, and a digest action as the head of its chain. -/
def watchedDigest : World where
  actions := [sampleAction 1 digestConfig 0]
  items := [sampleItem 1]
  feeds := [⟨1, 1⟩]
  watches := [sampleWatch]
  watchFeeds := [sampleWatchFeed none]

/-- The submitted spec of an edit that makes action 1 instant. -/
def toInstant : WatchActionInput := ⟨some 1, "log", instantConfig⟩

/-- A trigger pass of clock 0 that has loaded the digest head. -/
def digestPass : Pass := ⟨0, sampleWatch, sampleAction 1 digestConfig 0, some 60⟩

/-- The scan of feed 1 up to item 1. -/
def digestScan : Scan := ⟨digestPass, none, [], sampleWatchFeed none, 1, [1]⟩

/-- The scan after `open_window`. -/
def openScan : Scan := { digestScan with sched := some 60 }

/-- The store after the pass has read its bound. -/
def boundRead : World := { watchedDigest with log := [.bounded 1 1 1] }

/-- The store after the pass has opened the window. -/
def windowOpened : World := { boundRead with windows := [⟨1, 1, some 60⟩] }

theorem step_start : Trigger.Step sampleRegistry .idle watchedDigest watchedDigest
    (.started 0 sampleWatch) := .start (by decide)

theorem step_head : Trigger.Step sampleRegistry (.started 0 sampleWatch) watchedDigest
    watchedDigest (.loaded digestPass) := .head rfl rfl

theorem step_bound : Trigger.Step sampleRegistry
    (.cycle digestPass none [sampleWatchFeed none]) watchedDigest boundRead
    (.bounded digestScan) := .bound rfl (by decide)

theorem step_openWindow : Trigger.Step sampleRegistry (.bounded digestScan) boundRead windowOpened
    (.scanning openScan 60 none) :=
  .openWindow (w := boundRead) (s := digestScan) rfl rfl (by decide)

/-- The system over the small deployment. -/
abbrev SampleSystem (on : Component → Prop) : ThreadRel World Thread :=
  System {} sampleExecutors sampleRegistry on

/-- Instant successors do not wait for a window row. -/
theorem not_blocked_instant (w : World) (id : Id) (rank : ℕ) :
    ¬ Blocked sampleRegistry w 1 (some (sampleAction id instantConfig rank)) := by
  rintro ⟨nxt, h, ⟨n, hn⟩, -⟩
  obtain rfl := Option.some.inj h
  cases hn

end OpenMagpie
