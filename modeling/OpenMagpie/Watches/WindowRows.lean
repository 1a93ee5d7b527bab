import OpenMagpie.Watches.System

/-!
# Window rows and the actions they belong to

A leftover window row keeps its action's runs out of the drain. An edit that moves an action away
from digest deletes the row, but a transaction that read the old config can create it again.

* `Opens`: the step commits a transaction that opens a window; **`System.windowKeys`**: which
  window rows a step leaves.
* `WindowsOwned`: an action that is gone or is no digest has no window row.
* **`window_rows_owned`**: that holds in every run in which a transaction opens the window of an
  action only while the action is a stored digest, and after each step only then.
* **`window_row_left`**: a trigger pass opens the window of an action made instant meanwhile.
-/

set_option autoImplicit false

namespace OpenMagpie

open WatchActionRunState Interleave

variable {C : Type} {S : Settings} {E : Executors} {R : Registry C} {on : Component → Prop}

/-! ## The rows a step leaves -/

/-- The step from `t` to `t'` commits a transaction that opens the window of `k`: the advance of a
drain worker or of a flush into a digest successor, or the trigger's `open_window`. -/
inductive Opens (R : Registry C) (w : World) : Thread → Thread → WindowKey → Prop
  | drain {k : Holding} {action : Option WatchAction} {res : ActionResult} {d : Option Id}
      {nxt : WatchAction} (hn : IsDigest R nxt) (hw : completeWins k.run w.runs = true) :
      Opens R w (.drain (.advancing k action res d (some nxt))) (.drain (.started k.now))
        (k.run.accountId, nxt.id)
  | flush {s : Slice} {x : Settle} {nxt : WatchAction} {mint : Id → Id} {locked drained : Bool}
      {f : Flush} (hn : IsDigest R nxt) (hb : s.batch ≠ []) (hf : f ≠ .idle) :
      Opens R w (.flush (.closing s x (some nxt) mint locked drained)) (.flush f)
        (s.window.accountId, nxt.id)
  | trigger {s : Scan} {n : ℕ} {t : Trigger} (hi : s.pass.interval = some n) (hs : s.sched = none)
      (ht : t ≠ .idle) :
      Opens R w (.trigger (.bounded s)) (.trigger t) (s.pass.watch.accountId, s.pass.head.id)

/-- The keys of the window rows. -/
def windowKeys (w : World) : List WindowKey := w.windows.map WatchActionDigestWindow.key

/-- **The window rows after a step.** An edit's transaction opens no window; any other step leaves
the actions as they are and adds the row of a window that it opens. -/
theorem System.windowKeys {t t' : Thread} {w w' : World} (h : System S E R on t w w' t') :
    (w'.actions = w.actions ∧
      ∀ k, k ∈ windowKeys w' ↔ k ∈ windowKeys w ∨ Opens R w t t' k) ∨
    ((∀ k, ¬ Opens R w t t' k) ∧ ∃ (x : ChainWrite) (locks : List Id), x.Clears R ∧ x.Lands w ∧
      w' = { x.apply w with chainLocked := locks }) := by
  have same {w' : World} (ha : w'.actions = w.actions) (hw : w'.windows = w.windows)
      (hno : ∀ k, ¬ Opens R w t t' k) : (w'.actions = w.actions ∧
        ∀ k, k ∈ OpenMagpie.windowKeys w' ↔ k ∈ OpenMagpie.windowKeys w ∨ Opens R w t t' k) ∨
      ((∀ k, ¬ Opens R w t t' k) ∧ ∃ (x : ChainWrite) (locks : List Id), x.Clears R ∧ x.Lands w ∧
        w' = { x.apply w with chainLocked := locks }) := by
    refine .inl ⟨ha, fun k => ?_⟩
    rw [OpenMagpie.windowKeys, hw]
    exact ⟨.inl, fun hk => hk.resolve_right (hno k)⟩
  cases h with
  | drain _ h =>
    cases h with
    | @commit w w' k action succ res d mint hwin hm hb hadv =>
      have ha := advanced_of_enqueueNextBatch hadv
      refine .inl ⟨by rw [ha.frame], fun key => ?_⟩
      refine (ha.windows key).trans (or_congr_right ⟨?_, ?_⟩)
      · rintro ⟨-, nxt, hn, hd, rfl⟩
        obtain rfl := hn
        exact .drain hd hwin
      · rintro ⟨hd, -⟩
        exact ⟨List.cons_ne_nil _ _, _, rfl, hd, rfl⟩
    | lose hl =>
      refine same rfl rfl ?_
      rintro _ ⟨-, hw⟩
      exact absurd (hw.symm.trans hl) (by decide)
    | _ => exact same rfl rfl nofun
  | reap _ h => cases h <;> exact same rfl rfl nofun
  | flush _ h =>
    cases h with
    | check => split_ifs <;> exact same rfl rfl nofun
    | @commit w w' s x succ mint locked drained hm hb hadv =>
      have ha := advanced_of_enqueueNextBatch hadv
      have hkeys : OpenMagpie.windowKeys (s.close locked drained w') =
          OpenMagpie.windowKeys w' := by
        rw [OpenMagpie.windowKeys, OpenMagpie.windowKeys, Slice.close]
        dsimp only
        split_ifs
        · exact keys_closeWindow
        · rfl
      refine .inl ⟨by rw [Slice.close, ha.frame]; rfl, fun key => ?_⟩
      rw [hkeys]
      refine (ha.windows key).trans (or_congr_right ⟨?_, ?_⟩)
      · rintro ⟨hne, nxt, hn, hd, rfl⟩
        obtain rfl := hn
        exact .flush hd hne (by split_ifs <;> nofun)
      · intro hopen
        cases hopen with
        | flush hd hne _ => exact ⟨hne, _, rfl, hd, rfl⟩
    | abort =>
      refine same rfl rfl fun _ hopen => ?_
      cases hopen with
      | flush _ _ hf => exact hf rfl
    | crash hno =>
      refine same rfl rfl fun _ hopen => ?_
      cases hopen with
      | flush _ _ hf => exact hf rfl
    | _ => exact same rfl rfl nofun
  | trigger _ h =>
    cases h with
    | @openWindow w s n hi hs hl =>
      refine .inl ⟨rfl, fun key => ?_⟩
      rw [OpenMagpie.windowKeys, mem_keys_openWindow, or_comm]
      refine or_congr_right ⟨?_, ?_⟩
      · rintro rfl
        exact .trigger hi hs nofun
      · intro hopen
        cases hopen
        rfl
    | joinWindow hi hs =>
      refine same rfl rfl fun _ hopen => ?_
      cases hopen with
      | trigger _ hn _ =>
        rw [hs] at hn
        cases hn
    | instant hi =>
      refine same rfl rfl fun _ hopen => ?_
      cases hopen with
      | trigger hn _ _ =>
        rw [hi] at hn
        cases hn
    | crash =>
      refine same rfl rfl fun _ hopen => ?_
      cases hopen with
      | trigger _ _ ht => exact ht rfl
    | _ => exact same rfl rfl nofun
  | edit _ h =>
    rcases h.writes with ⟨locks, rfl⟩ | ⟨x, locks, hc, hl, rfl⟩
    · exact same rfl rfl nofun
    · exact .inr ⟨nofun, x, locks, hc, hl, rfl⟩
  | env _ h => cases h <;> exact same rfl rfl nofun

/-! ## Every run -/

/-- The action of a window key is stored and is a digest. -/
def DigestStored (R : Registry C) (actions : List WatchAction) (k : WindowKey) : Prop :=
  ∃ a ∈ actions, a.accountId = k.1 ∧ a.id = k.2 ∧ IsDigest R a

/-- An action that is gone, or whose stored config is no digest, has no window row. -/
def WindowsOwned (R : Registry C) (w : World) : Prop :=
  ∀ account action, (∀ a, getAction account action w.actions = some a → ¬ IsDigest R a) →
    ¬ hasWindow w.windows account action

/-- Read row by row: every window row belongs to a stored digest action. -/
theorem windowsOwned_iff {w : World} (h : ActionsOk w.actions) :
    WindowsOwned R w ↔ ∀ k ∈ windowKeys w, DigestStored R w.actions k := by
  constructor
  · rintro ho ⟨account, action⟩ hk
    by_contra hno
    refine ho account action (fun a ha hd => hno ?_) hk
    obtain ⟨hm, hid, hacc⟩ := of_getAction ha
    exact ⟨a, hm, hacc, hid, hd⟩
  · intro hall account action hno hw
    obtain ⟨a, hm, hacc, hid, hd⟩ := hall _ hw
    cases hg : getAction account action w.actions with
    | none =>
      have hne := List.find?_eq_none.mp hg a hm
      exact hne (decide_eq_true ⟨hid, hacc⟩)
    | some b =>
      obtain ⟨hm', hid', -⟩ := of_getAction hg
      obtain rfl := h.eq_of_id hm' hm (hid'.trans hid.symm)
      exact hno b hg hd

/-- A transaction that opens a window finds the window's action stored, and a digest. -/
def OpensCurrent (R : Registry C) : StepCond World Thread := fun c p _ t =>
  ∀ k, Opens R c.shared (c.thread p) t k → DigestStored R c.shared.actions k

/-- A digest action keeps its window row only in an edit that keeps it a digest. -/
theorem DigestStored.edit {w : World} {x : ChainWrite} {k : WindowKey} (hx : x.Clears R)
    (h : DigestStored R w.actions k) (hk : k ∈ windowKeys (x.apply w)) :
    DigestStored R (x.apply w).actions k := by
  obtain ⟨a, hm, hacc, hid, hd⟩ := h
  obtain ⟨v, hv, rfl⟩ := List.mem_map.mp hk
  obtain ⟨-, hkept⟩ := mem_clearDigestWindows.mp hv
  have hnot : ¬ (a.accountId = x.account ∧ a.id ∈ x.cleared) := by
    rw [hacc, hid]
    exact hkept
  obtain ⟨a', hm', hid', hacc', hd'⟩ := hx.digest hm hd hnot
  exact ⟨a', hm', hacc'.trans hacc, hid'.trans hid, hd'⟩

/-- **One step.** Window rows that belong to digest actions still do after a step exactly when the
step opens only windows of stored digest actions. -/
theorem System.windowsOwned {c : Conf World Thread} {p : ℕ} {w : World} {t : Thread}
    (h : System S E R on (c.thread p) c.shared w t) (hok : ActionsOk c.shared.actions)
    (ho : WindowsOwned R c.shared) : WindowsOwned R w ↔ OpensCurrent R c p w t := by
  rw [windowsOwned_iff hok] at ho
  rcases h.windowKeys with ⟨ha, hk⟩ | ⟨hno, x, locks, hx, hl, rfl⟩
  · rw [windowsOwned_iff (ha ▸ hok), ha]
    constructor
    · exact fun hall k hopen => hall k ((hk k).mpr (.inr hopen))
    · intro hcur k hkw
      rcases (hk k).mp hkw with hold | hopen
      · exact ho k hold
      · exact hcur k hopen
  · have hok' : ActionsOk (x.apply c.shared).actions := hl.actionsOk hok
    refine ⟨fun _ k hopen => absurd hopen (hno k), fun _ => ?_⟩
    refine (windowsOwned_iff hok').mpr fun k hk => ?_
    obtain ⟨v, hv, rfl⟩ := List.mem_map.mp hk
    have hold : v ∈ c.shared.windows := (mem_clearDigestWindows.mp hv).1
    exact (ho v.key (List.mem_map_of_mem hold)).edit hx hk

/-- A store whose window rows all belong to digest actions. -/
structure WindowsInOrder (R : Registry C) (w : World) : Prop where
  actions : ActionsOk w.actions
  owned : WindowsOwned R w

/-- **Only digest actions have window rows.** In every run in which each transaction that opens a
window finds the window's action stored and a digest, an action that is gone or is no digest has
no window row; and a step from such a state keeps it so if and only if it meets that condition. -/
theorem window_rows_owned :
    (∀ c, ReachIn (System S E R on) (Init (WindowsInOrder R)) (OpensCurrent R) c →
      WindowsOwned R c.shared) ∧
    ∀ c, ReachIn (System S E R on) (Init (WindowsInOrder R)) (OpensCurrent R) c → ∀ p w t,
      System S E R on (c.thread p) c.shared w t →
      (WindowsOwned R w ↔ OpensCurrent R c p w t) := by
  have hactions : ∀ c, ReachIn (System S E R on) (Init (WindowsInOrder R)) (OpensCurrent R) c →
      ActionsOk c.shared.actions := fun c hc => reach_actionsOk (fun _ hw => hw.actions) hc
  have howned : ∀ c, ReachIn (System S E R on) (Init (WindowsInOrder R)) (OpensCurrent R) c →
      WindowsOwned R c.shared := by
    intro c hc
    refine (hc.strengthen hactions).invariant (I := fun c => WindowsOwned R c.shared)
      (fun c hc => hc.1.owned) ?_
    intro c p w t ho hs ⟨hcur, hok, _⟩
    exact (hs.windowsOwned hok ho).mpr hcur
  exact ⟨howned, fun c hc p w t hs => hs.windowsOwned (hactions c hc) (howned c hc)⟩

/-! ## With and without the condition -/

/-- A trigger pass and an editor. -/
def triggerAndEditor : ℕ → Thread
  | 0 => .trigger .idle
  | 1 => .edit .idle
  | _ => .env

/-- Trigger passes and edits. -/
def TriggerAndEdit (k : Component) : Prop := k = .trigger ∨ k = .edit

theorem init_watchedDigest :
    Init (WindowsInOrder sampleRegistry) ⟨watchedDigest, triggerAndEditor⟩ := by
  refine ⟨⟨⟨by decide, by decide⟩, fun _ _ _ h => ?_⟩, fun p => ?_⟩
  · exact absurd h List.not_mem_nil
  · match p with
    | 0 | 1 => rfl
    | _ + 2 => trivial

/-- A trigger pass stands before `open_window`. -/
theorem reach_boundRead : ReachIn (SampleSystem TriggerAndEdit)
    (Init (WindowsInOrder sampleRegistry)) (OpensCurrent sampleRegistry)
    (Conf.set ⟨watchedDigest, triggerAndEditor⟩ 0 boundRead (.trigger (.bounded digestScan))) := by
  have h₀ : ReachIn (SampleSystem TriggerAndEdit) (Init (WindowsInOrder sampleRegistry))
      (OpensCurrent sampleRegistry) ⟨watchedDigest, triggerAndEditor⟩ := .init init_watchedDigest
  have h₁ := h₀.next 0 (.trigger (.inl rfl) step_start) rfl rfl nofun
  have h₂ := h₁.again (.trigger (.inl rfl) step_head) nofun
  have h₃ := h₂.again (.trigger (.inl rfl) .feeds) nofun
  exact h₃.again (.trigger (.inl rfl) step_bound) nofun

/-- The pass opens the window of the stored digest. -/
theorem window_rows_owned_sample : WindowsOwned sampleRegistry windowOpened := by
  have h₁ := reach_boundRead.again (.trigger (.inl rfl) step_openWindow) (by
    intro k hk
    have hk' : Opens sampleRegistry boundRead (.trigger (.bounded digestScan))
        (.trigger (.scanning openScan 60 none)) k := hk
    cases hk'
    exact ⟨sampleAction 1 digestConfig 0, List.mem_cons_self, rfl, rfl, 60, rfl⟩)
  exact window_rows_owned.1 _ h₁

/-- The digest made instant after the bound was read. -/
def instantHead : World := { boundRead with actions := [sampleAction 1 instantConfig 0] }

/-- The window opened after the edit. -/
def windowLeft : World := { instantHead with windows := [⟨1, 1, some 60⟩] }

/-- The store after the pass has enqueued the run of item 1. -/
def runLeft : World := { windowLeft with runs := [newRun 11 1 1 1 "log" 1 60 none] }

/-- **A window row is left.** The pass loads the digest head; an edit makes it instant and clears
its window; the pass opens the window, enqueues and finishes. No thread is at work, and the
instant action has a window row. -/
theorem window_row_left : ∃ c : Conf World Thread,
    Reach (SampleSystem TriggerAndEdit) (Init (WindowsInOrder sampleRegistry)) c ∧
    (∀ p, (c.thread p).Idle) ∧ ¬ WindowsOwned sampleRegistry c.shared := by
  have hload : Edit.Step sampleRegistry .idle boundRead boundRead
      (.loaded (sampleAction 1 digestConfig 0) toInstant) := .load (by decide)
  have hedit : setConfig sampleRegistry (sampleAction 1 digestConfig 0) toInstant = .ok {
      account := 1, updated := [(1, "log", instantConfig)], cleared := [1] } := by rfl
  have hset : Edit.Step sampleRegistry (.loaded (sampleAction 1 digestConfig 0) toInstant)
      boundRead instantHead .idle :=
    .setConfig hedit (by decide) ⟨by decide, by decide, by decide, by decide⟩
  let done : World := { runLeft with
    watchFeeds := [sampleWatchFeed (some 1)]
    log := .scanned 1 [1] :: runLeft.log }
  have hopen : Trigger.Step sampleRegistry (.bounded digestScan) instantHead windowLeft
      (.scanning openScan 60 none) :=
    .openWindow (w := instantHead) (s := digestScan) rfl rfl (by decide)
  have hpage : Trigger.Step sampleRegistry (.scanning openScan 60 none) windowLeft windowLeft
      (.paged openScan 60 [1]) := .page (by decide)
  have hchunk : Trigger.Step sampleRegistry (.paged openScan 60 [1]) windowLeft runLeft
      (.scanned openScan) := .chunk (.add (n := 10) (by decide)) rfl
  have hadvance : Trigger.Step sampleRegistry (.scanned openScan) runLeft done
      (.cycle digestPass (some 60) []) :=
    .advance ⟨_, List.mem_singleton_self _, rfl⟩
  have h₁ := Reach.next reach_boundRead.reach 1 (.edit (.inr rfl) hload) rfl rfl
  have h₂ := Reach.again h₁ (.edit (.inr rfl) hset)
  have h₃ := Reach.next h₂ 0 (.trigger (.inl rfl) hopen) rfl rfl
  have h₄ := Reach.again h₃ (.trigger (.inl rfl) hpage)
  have h₅ := Reach.again h₄ (.trigger (.inl rfl) hchunk)
  have h₆ := Reach.again h₅ (.trigger (.inl rfl) hadvance)
  have h₇ := Reach.again h₆ (.trigger (.inl rfl) .done)
  refine ⟨_, h₇, fun p => ?_, fun ho => ?_⟩
  · match p with
    | 0 | 1 => rfl
    | _ + 2 => trivial
  · have hw : hasWindow done.windows 1 1 := by decide
    refine ho 1 1 ?_ hw
    rintro a ha ⟨n, hn⟩
    obtain rfl := Option.some.inj ha
    cases hn

end OpenMagpie
