import OpenMagpie.Watches.World

/-!
# Config and chain edits

`set_config` loads the row, merges and saves. `add`, `remove` and `replace_chain` hold the path's
chain lock; `replace_chain` reads the rows it reconciles before its transaction.

* `ChainWrite.apply`, `ChainWrite.Lands`: an edit's transaction, and when it can commit.
* `Edit`, `Edit.Step`: the program points and steps of the edits; **`Edit.Step.writes`**: a step
  writes nothing or one transaction.
* `ActionsOk`: ids and ranks are unique; edits keep that.
-/

set_option autoImplicit false

namespace OpenMagpie

/-- The world after an edit's transaction. -/
def ChainWrite.apply (x : ChainWrite) (w : World) : World :=
  { w with actions := x.actions w.actions, windows := x.windows w.windows }

/-- An edit's transaction can commit: the created rows have new ids, no two rows of a path share a
rank, and no other transaction holds a window row that it deletes. -/
structure ChainWrite.Lands (x : ChainWrite) (w : World) : Prop where
  fresh : ∀ a ∈ x.created, a.accountId = x.account ∧ ∀ b ∈ w.actions, b.id ≠ a.id
  created_nodup : (x.created.map (·.id)).Nodup
  ranks : ((x.actions w.actions).map fun a => (a.accountId, a.pathId, a.rank)).Nodup
  unlocked : ∀ k ∈ w.locked, ¬ (k.1 = x.account ∧ k.2 ∈ x.cleared)

/-- Where an edit stands. -/
inductive Edit
  | idle
  | loaded (action : WatchAction) (spec : WatchActionInput)
  | replacing (mint : Id → Id) (account path : Id) (existing : List WatchAction)
      (specs : List WatchActionInput)

variable {C : Type} (R : Registry C)

/-- The steps of an edit. -/
inductive Edit.Step : Edit → World → World → Edit → Prop
  | load {w : World} {action : WatchAction} {spec : WatchActionInput} (ha : action ∈ w.actions) :
      Step .idle w w (.loaded action spec)
  | setConfig {w : World} {action : WatchAction} {spec : WatchActionInput} {x : ChainWrite}
      (hx : setConfig R action spec = .ok x) (ha : ∃ a ∈ w.actions, a.id = action.id)
      (hl : x.Lands w) : Step (.loaded action spec) w (x.apply w) .idle
  | add {w : World} {newId account path : Id} {spec : WatchActionInput} {rank : Option ℤ}
      {x : ChainWrite} (hp : path ∉ w.chainLocked)
      (hx : add R newId account path spec rank w.actions = .ok x) (hl : x.Lands w) :
      Step .idle w (x.apply w) .idle
  | remove {w : World} {account path id : Id} (hp : path ∉ w.chainLocked)
      (hl : (remove account path id w.actions).Lands w) :
      Step .idle w ((remove account path id w.actions).apply w) .idle
  | lockChain {w : World} {mint : Id → Id} {account path : Id} {specs : List WatchActionInput}
      (hp : path ∉ w.chainLocked) :
      Step .idle w { w with chainLocked := path :: w.chainLocked }
        (.replacing mint account path (listForPath account path w.actions) specs)
  | replaceChain {w : World} {mint : Id → Id} {account path : Id} {existing : List WatchAction}
      {specs : List WatchActionInput} {x : ChainWrite}
      (hx : replaceChain R mint account path existing specs = .ok x) (hl : x.Lands w) :
      Step (.replacing mint account path existing specs) w
        { x.apply w with chainLocked := w.chainLocked.erase path } .idle
  | refused {w : World} {mint : Id → Id} {account path : Id} {existing : List WatchAction}
      {specs : List WatchActionInput} :
      Step (.replacing mint account path existing specs) w
        { w with chainLocked := w.chainLocked.erase path } .idle
  | crash {e : Edit} {w : World} : Step e w w .idle

variable {R} {e e' : Edit} {w w' : World}

/-- **What a step of an edit writes**: path locks only, or one transaction that clears the windows
it has to. -/
theorem Edit.Step.writes (h : Edit.Step R e w w' e') :
    (∃ locks, w' = { w with chainLocked := locks }) ∨
      ∃ (x : ChainWrite) (locks : List Id), x.Clears R ∧ x.Lands w ∧
        w' = { x.apply w with chainLocked := locks } := by
  cases h with
  | load => exact .inl ⟨_, rfl⟩
  | setConfig hx ha hl => exact .inr ⟨_, _, setConfig_clears hx, hl, rfl⟩
  | add hp hx hl => exact .inr ⟨_, _, add_clears hx, hl, rfl⟩
  | remove hp hl => exact .inr ⟨_, _, remove_clears _ _ _ _, hl, rfl⟩
  | lockChain => exact .inl ⟨_, rfl⟩
  | replaceChain hx hl => exact .inr ⟨_, _, replaceChain_clears hx, hl, rfl⟩
  | refused => exact .inl ⟨_, rfl⟩
  | crash => exact .inl ⟨_, rfl⟩

/-! ## The action table -/

/-- An id names one action, and a rank of a path one action. -/
structure ActionsOk (actions : List WatchAction) : Prop where
  ids : (actions.map (·.id)).Nodup
  ranks : (actions.map fun a => (a.accountId, a.pathId, a.rank)).Nodup

theorem ActionsOk.eq_of_id {actions : List WatchAction} (h : ActionsOk actions) {a b : WatchAction}
    (ha : a ∈ actions) (hb : b ∈ actions) (hid : a.id = b.id) : a = b :=
  Table.eq_of_key h.ids ha hb hid

/-- **An edit's transaction keeps the action table in order.** -/
theorem ChainWrite.Lands.actionsOk {x : ChainWrite} (hl : x.Lands w) (h : ActionsOk w.actions) :
    ActionsOk (x.apply w).actions := by
  refine ⟨?_, hl.ranks⟩
  have hmap : (x.actions w.actions).map (·.id) =
      (w.actions.filter fun a => decide (x.Keeps a)).map (·.id) ++ x.created.map (·.id) := by
    rw [ChainWrite.actions, List.map_map, List.map_append, List.map_map]
    congr 1
    · exact List.map_congr_left fun a _ => by simp
    · exact List.map_congr_left fun a _ => by simp
  show ((x.actions w.actions).map (·.id)).Nodup
  rw [hmap, List.nodup_append]
  refine ⟨(List.filter_sublist.map _).nodup h.ids, hl.created_nodup, ?_⟩
  intro i hi j hj hij
  obtain ⟨b, hb, rfl⟩ := List.mem_map.mp hi
  obtain ⟨a, ha, rfl⟩ := List.mem_map.mp hj
  exact (hl.fresh a ha).2 b (List.mem_of_mem_filter hb) hij

end OpenMagpie
