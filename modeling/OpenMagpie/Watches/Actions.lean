import Mathlib.Data.List.MinMax
import Mathlib.Data.List.Sort
import OpenMagpie.Watches.Config
import OpenMagpie.Watches.Digest

/-!
# The action chain of a path

* `listForPath`, `getAction`, `nextInChain`: the reads. The successor is the action with the
  smallest rank above a given one.
* `ChainWrite`: what an edit's transaction writes; `ChainWrite.actions`, `ChainWrite.windows`.
* `setConfig`, `add`, `remove`, `replaceChain`: the transaction each edit computes.
* **`ChainWrite.Clears`**: a transaction clears the window of every action it deletes or whose
  config it moves away from digest; `setConfig_clears`, `add_clears`, `remove_clears`,
  `replaceChain_clears`.
-/

set_option autoImplicit false

namespace OpenMagpie

/-! ## Reads -/

/-- The rows of a path. -/
def chainRows (account path : Id) (actions : List WatchAction) : List WatchAction :=
  actions.filter fun a => decide (a.accountId = account ∧ a.pathId = path)

/-- `list_for_path`: the chain in rank order. -/
def listForPath (account path : Id) (actions : List WatchAction) : List WatchAction :=
  (actions.filter fun a => decide (a.accountId = account ∧ a.pathId = path)).insertionSort
    fun a b => a.rank ≤ b.rank

/-- `get`. -/
def getAction (account id : Id) (actions : List WatchAction) : Option WatchAction :=
  actions.find? fun a => decide (a.id = id ∧ a.accountId = account)

/-- The actions of a path above a rank. -/
def above (account path : Id) (rank : ℕ) (actions : List WatchAction) : List WatchAction :=
  actions.filter fun a => decide (a.accountId = account ∧ a.pathId = path ∧ rank < a.rank)

/-- `next_in_chain`: the action with the smallest rank above `action`'s. -/
def nextInChain (account : Id) (action : WatchAction) (actions : List WatchAction) :
    Option WatchAction :=
  (above account action.pathId action.rank actions).argmin (·.rank)

theorem of_getAction {account id : Id} {actions : List WatchAction} {a : WatchAction}
    (h : getAction account id actions = some a) :
    a ∈ actions ∧ a.id = id ∧ a.accountId = account :=
  ⟨List.mem_of_find?_eq_some h, by simpa using List.find?_some h⟩

theorem mem_above {account path : Id} {rank : ℕ} {actions : List WatchAction} {b : WatchAction} :
    b ∈ above account path rank actions ↔
      b ∈ actions ∧ b.accountId = account ∧ b.pathId = path ∧ rank < b.rank := by
  rw [above, List.mem_filter, decide_eq_true_iff]

theorem mem_listForPath {account path : Id} {actions : List WatchAction} {a : WatchAction} :
    a ∈ listForPath account path actions ↔
      a ∈ actions ∧ a.accountId = account ∧ a.pathId = path := by
  rw [listForPath, List.mem_insertionSort, List.mem_filter, decide_eq_true_iff]

theorem mem_of_nextInChain {account : Id} {a n : WatchAction} {actions : List WatchAction}
    (h : n ∈ nextInChain account a actions) : n ∈ actions ∧ a.rank < n.rank :=
  let ⟨hm, _, _, hr⟩ := mem_above.mp (List.argmin_mem h)
  ⟨hm, hr⟩

/-- Fewer actions are above a successor. -/
theorem length_above_lt {account : Id} {a n : WatchAction} {actions : List WatchAction}
    (h : nextInChain account a actions = some n) :
    (above account n.pathId n.rank actions).length <
      (above account a.pathId a.rank actions).length := by
  have hn : n ∈ above account a.pathId a.rank actions := List.argmin_mem h
  obtain ⟨-, -, hp, hr⟩ := mem_above.mp hn
  have hf : above account n.pathId n.rank actions =
      (above account a.pathId a.rank actions).filter fun b => decide (n.rank < b.rank) := by
    rw [above, above, List.filter_filter]
    refine List.filter_congr fun b _ => ?_
    rw [← Bool.decide_and, decide_eq_decide, hp]
    grind
  rw [hf, List.length_filter_lt_length_iff_exists]
  exact ⟨n, hn, by simp⟩

/-- `chain_from`: the action, then every downstream action to the tail. -/
def chainFrom (account : Id) (actions : List WatchAction) (target : WatchAction) :
    List WatchAction :=
  target :: match _h : nextInChain account target actions with
    | none => []
    | some n => chainFrom account actions n
termination_by (above account target.pathId target.rank actions).length
decreasing_by exact length_above_lt _h

/-! ## What an edit writes -/

/-- Why an edit is refused. -/
inductive ChainError
  | concurrent (path : Id)
  | policy (message : String)
  | config (e : ConfigError)

/-- The writes of an edit's transaction: rows deleted, windows cleared, rows whose kind and config
change, rows created, and the final ranks. -/
structure ChainWrite where
  account : Id
  deleted : List Id := []
  cleared : List Id := []
  updated : List (Id × String × Json) := []
  created : List WatchAction := []
  ranks : List (Id × ℕ) := []

/-- The row with its new kind and config. An edit names rows of its own account only. -/
def ChainWrite.updateRow (x : ChainWrite) (a : WatchAction) : WatchAction :=
  if a.accountId = x.account then
    match x.updated.lookup a.id with
    | some (kind, config) => { a with kind := kind, config := config }
    | none => a
  else a

/-- The row at its final rank. -/
def ChainWrite.rankRow (x : ChainWrite) (a : WatchAction) : WatchAction :=
  if a.accountId = x.account then { a with rank := (x.ranks.lookup a.id).getD a.rank } else a

/-- The rows the transaction leaves in place. -/
def ChainWrite.Keeps (x : ChainWrite) (a : WatchAction) : Prop :=
  ¬ (a.accountId = x.account ∧ a.id ∈ x.deleted)

instance (x : ChainWrite) (a : WatchAction) : Decidable (x.Keeps a) := by
  unfold ChainWrite.Keeps; infer_instance

/-- The action table after the transaction. -/
def ChainWrite.actions (x : ChainWrite) (actions : List WatchAction) : List WatchAction :=
  (((actions.filter fun a => decide (x.Keeps a)).map x.updateRow) ++ x.created).map x.rankRow

/-- The window table after the transaction. -/
def ChainWrite.windows (x : ChainWrite) (windows : List WatchActionDigestWindow) :
    List WatchActionDigestWindow :=
  clearDigestWindows x.account x.cleared windows

/-- The final ranks of `_renumber`: dense, in list order. -/
def renumber (ordered : List Id) : List (Id × ℕ) := ordered.zipIdx

/-! ## The edits -/

/-- A submitted action. -/
structure WatchActionInput where
  id : Option Id := none
  kind : String
  config : Json

variable {C : Type} (R : Registry C)

/-- The config an edit merges with: the loaded row's, when the kind stays. -/
def loadPrior (prior : Option WatchAction) (kind : String) : Except ChainError (Option C) :=
  ((prior.filter fun a => decide (a.kind = kind)).mapM (loadConfig R)).mapError .config

/-- `set_config`: the submitted config, merged with the loaded row's. -/
def setConfig (action : WatchAction) (spec : WatchActionInput) : Except ChainError ChainWrite := do
  let prior ← loadPrior R (some action) spec.kind
  let merged ← (mergeConfig R spec.kind spec.config prior).mapError .config
  return { account := action.accountId
           updated := [(action.id, spec.kind, R.modelDump merged)]
           cleared := if (intervalOf R merged).isSome then [] else [action.id] }

/-- `add`: a new row at `rank`, or at the end; the chain as it is read inside the transaction. -/
def add (newId account path : Id) (spec : WatchActionInput) (rank : Option ℤ)
    (actions : List WatchAction) : Except ChainError ChainWrite := do
  let config ← (validateConfig R spec.kind spec.config).mapError .config
  let chain := (listForPath account path actions).map (·.id)
  let insertAt := match rank with
    | none => chain.length
    | some n => (max 0 (min n chain.length)).toNat
  return { account := account
           created := [⟨newId, account, path, spec.kind, R.modelDump config, chain.length + 1⟩]
           ranks := renumber (chain.insertIdx insertAt newId) }

/-- `remove`: the row and its window go, the chain closes up. -/
def remove (account path id : Id) (actions : List WatchAction) : ChainWrite where
  account := account
  deleted := [id]
  cleared := [id]
  ranks := renumber (((listForPath account path actions).filter fun a => decide (a.id ≠ id)).map
    (·.id))

/-- The accumulator of `replace_chain`'s loop over the submitted actions. -/
structure Reconcile where
  kept : List Id := []
  ordered : List Id := []
  updated : List (Id × String × Json) := []
  created : List WatchAction := []
  toClear : List Id := []
  tempRank : ℕ

/-- `_resolve_prior`: the row a submitted id names, none for a new action. -/
def resolvePrior (existing : List WatchAction) (kept : List Id) (id : Option Id) :
    Except ChainError (Option WatchAction) :=
  match id with
  | none => .ok none
  | some id =>
    match existing.find? fun a => decide (a.id = id) with
    | none => .error (.policy s!"action '{id}' is not on this watch; omit `id` to add a new action")
    | some a =>
      if id ∈ kept then .error (.policy s!"action '{id}' appears more than once in the chain")
      else .ok (some a)

/-- `_submitted_has_masked_secret`; a config that does not parse has none. -/
def submittedHasMaskedSecret (spec : WatchActionInput) : Bool :=
  match parseConfig R spec.kind spec.config with
  | .ok c => R.hasMaskedSecret c
  | .error _ => false

/-- The members of `WatchActionKind`, with their values. -/
def watchActionKinds : List (String × String) :=
  [("SEMANTIC_FILTER", "semantic_filter"), ("EXTRACT", "extract"), ("WEBHOOK", "webhook"),
    ("LOG", "log")]

/-- `repr` of a submitted kind: a member of the enumeration, or the text that a plugin registers. -/
def reprKind (kind : String) : String :=
  match watchActionKinds.find? (fun p => p.2 = kind) with
  | some p => s!"<WatchActionKind.{p.1}: '{kind}'>"
  | none => s!"'{kind}'"

/-- A masked secret is refused without a row of the same kind to restore it from. -/
def refuseMasked (prior : Option WatchAction) (spec : WatchActionInput) : Except ChainError Unit :=
  if (prior.filter fun a => decide (a.kind = spec.kind)).isNone &&
      submittedHasMaskedSecret R spec then
    .error (.policy s!"{reprKind spec.kind} action has a masked secret (***) but no matching prior to restore it from (a new action, or a changed kind); provide the real value")
  else .ok ()

/-- One submitted action of `replace_chain`. -/
def reconcileOne (mint : Id → Id) (account path : Id) (existing : List WatchAction)
    (acc : Reconcile) (spec : WatchActionInput) : Except ChainError Reconcile := do
  let priorRow ← resolvePrior existing acc.kept spec.id
  refuseMasked R priorRow spec
  let prior ← loadPrior R priorRow spec.kind
  let merged ← (mergeConfig R spec.kind spec.config prior).mapError .config
  let blob := R.modelDump merged
  match priorRow with
  | some a =>
    return { acc with
      kept := a.id :: acc.kept
      ordered := acc.ordered ++ [a.id]
      updated := acc.updated ++ [(a.id, spec.kind, blob)]
      toClear := if (intervalOf R merged).isSome then acc.toClear else acc.toClear ++ [a.id] }
  | none =>
    return { acc with
      ordered := acc.ordered ++ [mint acc.tempRank]
      created := acc.created ++
        [⟨mint acc.tempRank, account, path, spec.kind, blob, acc.tempRank⟩]
      tempRank := acc.tempRank + 1 }

/-- Rows of an unknown kind are not shown to the client, so they are not removed by omission. -/
def refuseHidden (removed : List WatchAction) : Except ChainError Unit :=
  match (removed.filter fun a => ! decide (IsKnownKind R a.kind)).map (·.id) with
  | [] => .ok ()
  | hidden => .error (.policy s!"actions {hidden} have an unreadable kind and aren't shown to the client; resolve them (migrate or remove) before replacing this watch's action chain")

/-- `replace_chain`, from the rows `existing` it read under the lock. -/
def replaceChain (mint : Id → Id) (account path : Id) (existing : List WatchAction)
    (specs : List WatchActionInput) : Except ChainError ChainWrite := do
  let acc ← specs.foldlM (reconcileOne R mint account path existing)
    { tempRank := existing.length + 1 }
  let removed := existing.filter fun a => decide (a.id ∉ acc.kept)
  refuseHidden R removed
  return { account := account
           deleted := removed.map (·.id)
           cleared := removed.map (·.id) ++ acc.toClear
           updated := acc.updated
           created := acc.created
           ranks := renumber acc.ordered }

/-! ## Which windows an edit clears -/

variable {R}

/-- The row's new config is the dump of a digest config. -/
def StoresDigest (u : Id × String × Json) : Prop :=
  ∃ c, R.kind c = u.2.1 ∧ R.modelDump c = u.2.2 ∧ (intervalOf R c).isSome

variable (R) in
/-- Every action an edit deletes or moves away from digest loses its window. -/
structure ChainWrite.Clears (x : ChainWrite) : Prop where
  deleted : ∀ id ∈ x.deleted, id ∈ x.cleared
  updated : ∀ u ∈ x.updated, StoresDigest (R := R) u ∨ u.1 ∈ x.cleared

/-- The config `merge_config` returned is the one the row will load. -/
theorem storesDigest_of_merge {id : Id} {kind : String} {data : Json} {prior : Option C} {c : C}
    (h : mergeConfig R kind data prior = .ok c) (hd : (intervalOf R c).isSome) :
    StoresDigest (R := R) (id, kind, R.modelDump c) :=
  ⟨c, kind_mergeConfig h, rfl, hd⟩

theorem setConfig_clears {action : WatchAction} {spec : WatchActionInput} {x : ChainWrite}
    (h : setConfig R action spec = .ok x) : x.Clears R := by
  obtain ⟨prior, _, h⟩ := Except.bind_eq_ok.mp h
  obtain ⟨merged, hm, h⟩ := Except.bind_eq_ok.mp h
  obtain rfl := Except.pure_eq_ok.mp h
  refine ⟨by simp, fun u hu => ?_⟩
  obtain rfl := List.mem_singleton.mp hu
  by_cases hd : (intervalOf R merged).isSome
  · exact .inl (storesDigest_of_merge (Except.mapError_eq_ok.mp hm) hd)
  · exact .inr (by simp [hd])

theorem add_clears {newId account path : Id} {spec : WatchActionInput} {rank : Option ℤ}
    {actions : List WatchAction} {x : ChainWrite}
    (h : add R newId account path spec rank actions = .ok x) : x.Clears R := by
  obtain ⟨c, _, h⟩ := Except.bind_eq_ok.mp h
  obtain rfl := Except.pure_eq_ok.mp h
  exact ⟨by simp, by simp⟩

theorem remove_clears (account path id : Id) (actions : List WatchAction) :
    (remove account path id actions).Clears R :=
  ⟨fun _ h => h, by simp [remove]⟩

/-- The row of a submitted id; a new action has none. -/
theorem resolvePrior_eq_ok {existing : List WatchAction} {kept : List Id} {id : Option Id}
    {row : Option WatchAction} (h : resolvePrior existing kept id = .ok row) :
    (∃ a ∈ existing, row = some a ∧ id = some a.id ∧ a.id ∉ kept) ∨ (row = none ∧ id = none) := by
  cases id with
  | none => exact .inr ⟨(Except.ok.inj h).symm, rfl⟩
  | some id =>
    rw [resolvePrior] at h
    cases hf : existing.find? fun a => decide (a.id = id) with
    | none =>
      rw [hf] at h
      cases h
    | some a =>
      have hid : a.id = id := of_decide_eq_true
        (List.find?_some (p := fun a : WatchAction => decide (a.id = id)) hf)
      rw [hf] at h
      dsimp only at h
      split_ifs at h with hk
      exact .inl ⟨a, List.mem_of_find?_eq_some hf, (Except.ok.inj h).symm, by rw [hid], hid ▸ hk⟩

/-- The accumulator after the row `a` has been given a merged config. -/
def Reconcile.update (R : Registry C) (acc : Reconcile) (a : WatchAction) (kind : String)
    (merged : C) : Reconcile :=
  { acc with
    kept := a.id :: acc.kept
    ordered := acc.ordered ++ [a.id]
    updated := acc.updated ++ [(a.id, kind, R.modelDump merged)]
    toClear := if (intervalOf R merged).isSome then acc.toClear else acc.toClear ++ [a.id] }

/-- The accumulator after a new row. -/
def Reconcile.create (R : Registry C) (acc : Reconcile) (mint : Id → Id) (account path : Id)
    (kind : String) (merged : C) : Reconcile :=
  { acc with
    ordered := acc.ordered ++ [mint acc.tempRank]
    created := acc.created ++
      [⟨mint acc.tempRank, account, path, kind, R.modelDump merged, acc.tempRank⟩]
    tempRank := acc.tempRank + 1 }

/-- **What one submitted action does**: it updates the row that it names, or makes a new one. -/
theorem reconcileOne_eq_ok {mint : Id → Id} {account path : Id} {existing : List WatchAction}
    {acc acc' : Reconcile} {spec : WatchActionInput}
    (h : reconcileOne R mint account path existing acc spec = .ok acc') :
    ∃ row prior merged, refuseMasked R row spec = .ok () ∧ loadPrior R row spec.kind = .ok prior ∧
      mergeConfig R spec.kind spec.config prior = .ok merged ∧
      ((∃ a ∈ existing, row = some a ∧ spec.id = some a.id ∧ a.id ∉ acc.kept ∧
          acc' = acc.update R a spec.kind merged) ∨
        (row = none ∧ spec.id = none ∧ acc' = acc.create R mint account path spec.kind merged)) := by
  obtain ⟨row, hrow, h⟩ := Except.bind_eq_ok.mp h
  obtain ⟨_, hmask, h⟩ := Except.bind_eq_ok.mp h
  obtain ⟨prior, hprior, h⟩ := Except.bind_eq_ok.mp h
  obtain ⟨merged, hm, h⟩ := Except.bind_eq_ok.mp h
  refine ⟨row, prior, merged, hmask, hprior, Except.mapError_eq_ok.mp hm, ?_⟩
  rcases resolvePrior_eq_ok hrow with ⟨a, ha, rfl, hid, hk⟩ | ⟨rfl, hid⟩
  · exact .inl ⟨a, ha, rfl, hid, hk, (Except.pure_eq_ok.mp h).symm⟩
  · exact .inr ⟨rfl, hid, (Except.pure_eq_ok.mp h).symm⟩

/-- What the loop of `replace_chain` keeps: an updated row stores a digest or is to be cleared. -/
theorem reconcileOne_clears {mint : Id → Id} {account path : Id} {existing : List WatchAction}
    {acc acc' : Reconcile} {spec : WatchActionInput}
    (hi : ∀ u ∈ acc.updated, StoresDigest (R := R) u ∨ u.1 ∈ acc.toClear)
    (h : reconcileOne R mint account path existing acc spec = .ok acc') :
    ∀ u ∈ acc'.updated, StoresDigest (R := R) u ∨ u.1 ∈ acc'.toClear := by
  obtain ⟨_, prior, merged, -, -, hm, ⟨a, -, -, -, -, rfl⟩ | ⟨-, -, rfl⟩⟩ := reconcileOne_eq_ok h
  · intro u hu
    rcases List.mem_append.mp hu with hu | hu
    · refine (hi u hu).imp_right fun hc => ?_
      unfold Reconcile.update
      dsimp only
      split_ifs
      · exact hc
      · exact List.mem_append_left _ hc
    · obtain rfl := List.mem_singleton.mp hu
      by_cases hd : (intervalOf R merged).isSome
      · exact .inl (storesDigest_of_merge hm hd)
      · exact .inr (by simp [Reconcile.update, hd])
  · exact hi

theorem replaceChain_clears {mint : Id → Id} {account path : Id} {existing : List WatchAction}
    {specs : List WatchActionInput} {x : ChainWrite}
    (h : replaceChain R mint account path existing specs = .ok x) : x.Clears R := by
  obtain ⟨acc, hacc, h⟩ := Except.bind_eq_ok.mp h
  obtain ⟨_, _, h⟩ := Except.bind_eq_ok.mp h
  obtain rfl := Except.pure_eq_ok.mp h
  have hi := Except.of_foldlM_eq_ok (P := fun acc : Reconcile =>
    ∀ u ∈ acc.updated, StoresDigest (R := R) u ∨ u.1 ∈ acc.toClear)
    (fun _ _ _ hb hs => reconcileOne_clears hb hs) (by simp) hacc
  exact ⟨fun id hid => List.mem_append_left _ hid,
    fun u hu => (hi u hu).imp_right (List.mem_append_right _)⟩

@[simp] theorem ChainWrite.rankRow_id (x : ChainWrite) (a : WatchAction) :
    (x.rankRow a).id = a.id := by
  unfold ChainWrite.rankRow; split_ifs <;> rfl

@[simp] theorem ChainWrite.rankRow_accountId (x : ChainWrite) (a : WatchAction) :
    (x.rankRow a).accountId = a.accountId := by
  unfold ChainWrite.rankRow; split_ifs <;> rfl

@[simp] theorem ChainWrite.rankRow_kind (x : ChainWrite) (a : WatchAction) :
    (x.rankRow a).kind = a.kind := by
  unfold ChainWrite.rankRow; split_ifs <;> rfl

@[simp] theorem ChainWrite.rankRow_config (x : ChainWrite) (a : WatchAction) :
    (x.rankRow a).config = a.config := by
  unfold ChainWrite.rankRow; split_ifs <;> rfl

/-- **A row that a transaction keeps** is as before, or it has the kind and config of an update. -/
theorem ChainWrite.updateRow_cases (x : ChainWrite) (a : WatchAction) : x.updateRow a = a ∨
    ∃ kind config, a.accountId = x.account ∧ (a.id, kind, config) ∈ x.updated ∧
      x.updateRow a = { a with kind := kind, config := config } := by
  unfold ChainWrite.updateRow
  split_ifs with hacc
  · split
    · rename_i kind config hl
      obtain ⟨_, _, hmem, _⟩ := List.lookup_eq_some_iff.mp hl
      exact .inr ⟨kind, config, hacc, by simp [hmem], rfl⟩
    · exact .inl rfl
  · exact .inl rfl

@[simp] theorem ChainWrite.updateRow_id (x : ChainWrite) (a : WatchAction) :
    (x.updateRow a).id = a.id := by
  obtain h | ⟨_, _, -, -, h⟩ := x.updateRow_cases a <;> rw [h]

@[simp] theorem ChainWrite.updateRow_accountId (x : ChainWrite) (a : WatchAction) :
    (x.updateRow a).accountId = a.accountId := by
  obtain h | ⟨_, _, -, -, h⟩ := x.updateRow_cases a <;> rw [h]

theorem ChainWrite.map_id_updateRow (x : ChainWrite) (l : List WatchAction) :
    (l.map x.updateRow).map (·.id) = l.map (·.id) := by
  rw [List.map_map]
  exact List.map_congr_left fun a _ => x.updateRow_id a

/-- A new rank changes nothing about the cadence. -/
theorem isDigest_rankRow (x : ChainWrite) (a : WatchAction) :
    IsDigest R (x.rankRow a) ↔ IsDigest R a := by
  unfold ChainWrite.rankRow; split_ifs <;> rfl

/-- **A digest action whose window an edit keeps is a digest action after the edit.** -/
theorem ChainWrite.Clears.digest {x : ChainWrite} (hx : x.Clears R) {actions : List WatchAction}
    {a : WatchAction} (ha : a ∈ actions) (hd : IsDigest R a)
    (hc : ¬ (a.accountId = x.account ∧ a.id ∈ x.cleared)) :
    ∃ a' ∈ x.actions actions, a'.id = a.id ∧ a'.accountId = a.accountId ∧ IsDigest R a' := by
  have hkeep : x.Keeps a := fun ⟨hacc, hdel⟩ => hc ⟨hacc, hx.deleted _ hdel⟩
  refine ⟨x.rankRow (x.updateRow a), ?_, by simp, by simp, ?_⟩
  · refine List.mem_map_of_mem (List.mem_append_left _ (List.mem_map_of_mem ?_))
    simpa [List.mem_filter] using ⟨ha, hkeep⟩
  · rw [isDigest_rankRow]
    obtain h | ⟨kind, config, hacc, hmem, h⟩ := x.updateRow_cases a
    · rwa [h]
    · rw [h]
      obtain ⟨c, hk, hdump, hi⟩ := (hx.updated _ hmem).resolve_right fun h => hc ⟨hacc, h⟩
      exact (IsDigest.of_stored hk.symm hdump.symm).mpr hi

end OpenMagpie
