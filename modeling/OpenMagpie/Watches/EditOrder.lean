import OpenMagpie.Lib.Trace
import OpenMagpie.Watches.ReplaceChain
import OpenMagpie.Watches.Secrets
import OpenMagpie.Watches.System

/-!
# Concurrent edits and their order

An edit merges what is submitted with the rows it has read, and writes in a later step.

* `EditRequest`, `EditRequest.alone`, `serial`: a submitted edit, the edit served alone, and edits
  served one after the other.
* `Commits`, `Accepted`: the steps of a run that commit an edit, and the edits it accepted;
  `exists_accepted`: every run has a list of them.
* `SamePrior`, `Undisturbed`: an edit commits while what it took from its rows is still there.
* `ChainWrite.Dumps`: what an edit stores are dumps of configs; `setConfig_samePrior`,
  `replaceChain_samePrior`: the transaction that an undisturbed edit computes again.
* **`edits_serial`**: undisturbed edits leave the table that they leave in commit order.
* **`secret_lost`**: two edits of one webhook that no order explains.
-/

set_option autoImplicit false

namespace OpenMagpie

open Interleave

variable {C : Type}

/-! ## Edits one after the other -/

/-- What a client submits. -/
inductive EditRequest
  | setConfig (account id : Id) (spec : WatchActionInput)
  | add (newId account path : Id) (spec : WatchActionInput) (rank : Option ℤ)
  | remove (account path id : Id)
  | replaceChain (mint : Id → Id) (account path : Id) (specs : List WatchActionInput)

variable (R : Registry C)

/-- The table after an edit that no other edit overlaps; none when it is refused. -/
def EditRequest.alone (t : List WatchAction) : EditRequest → Option (List WatchAction)
  | .setConfig account id spec => do
    let a ← getAction account id t
    let x ← (OpenMagpie.setConfig R a spec).toOption
    return x.actions t
  | .add newId account path spec rank => do
    let x ← (OpenMagpie.add R newId account path spec rank t).toOption
    return x.actions t
  | .remove account path id => some ((OpenMagpie.remove account path id t).actions t)
  | .replaceChain mint account path specs => do
    let x ← (OpenMagpie.replaceChain R mint account path (listForPath account path t) specs).toOption
    return x.actions t

/-- The table after edits that are served one after the other. -/
def serial (t : List WatchAction) (xs : List EditRequest) : Option (List WatchAction) :=
  xs.foldlM (EditRequest.alone R) t

/-- The steps that commit an edit. -/
inductive Commits : Thread → World → World → Thread → EditRequest → Prop
  | setConfig {w : World} {action : WatchAction} {spec : WatchActionInput} {x : ChainWrite}
      (hx : OpenMagpie.setConfig R action spec = .ok x) (ha : ∃ a ∈ w.actions, a.id = action.id) :
      Commits (.edit (.loaded action spec)) w (x.apply w) (.edit .idle)
        (.setConfig action.accountId action.id spec)
  | add {w : World} {newId account path : Id} {spec : WatchActionInput} {rank : Option ℤ}
      {x : ChainWrite} (hx : OpenMagpie.add R newId account path spec rank w.actions = .ok x) :
      Commits (.edit .idle) w (x.apply w) (.edit .idle) (.add newId account path spec rank)
  | remove {w : World} {account path id : Id} :
      Commits (.edit .idle) w ((OpenMagpie.remove account path id w.actions).apply w) (.edit .idle)
        (.remove account path id)
  | replaceChain {w : World} {mint : Id → Id} {account path : Id} {existing : List WatchAction}
      {specs : List WatchActionInput} {x : ChainWrite} {locks : List Id}
      (hx : OpenMagpie.replaceChain R mint account path existing specs = .ok x) :
      Commits (.edit (.replacing mint account path existing specs)) w
        { x.apply w with chainLocked := locks } (.edit .idle)
        (.replaceChain mint account path specs)

/-- The edits that a run accepted, the latest first. -/
inductive Accepted : List (Move World Thread) → List EditRequest → Prop
  | nil : Accepted [] []
  | commit {m : Move World Thread} {tr : List (Move World Thread)} {x : EditRequest}
      {xs : List EditRequest} (h : Accepted tr xs)
      (hc : Commits R m.prev m.before.shared m.shared m.next x) : Accepted (m :: tr) (x :: xs)
  | other {m : Move World Thread} {tr : List (Move World Thread)} {xs : List EditRequest}
      (h : Accepted tr xs) (hw : m.shared.actions = m.before.shared.actions) : Accepted (m :: tr) xs

/-! ## Undisturbed edits -/

/-- The submitted config masks nothing and takes nothing from a config of its kind. -/
def CarriesNothing (spec : WatchActionInput) : Prop :=
  ∀ c, parseConfig R spec.kind spec.config = .ok c →
    R.hasMaskedSecret c = false ∧ ∀ p, R.kind p = spec.kind → R.mergePreserving c p = .ok c

/-- What the edit took from the row `a` it read, it would take from the row `b` as well. -/
def SamePrior (spec : WatchActionInput) (a b : WatchAction) : Prop :=
  (b.kind = a.kind ∧ b.config = a.config) ∨ (a.kind ≠ spec.kind ∧ b.kind ≠ spec.kind) ∨
    CarriesNothing R spec

/-- The rows that an edit read are still there, with all that it took from them. -/
def Thread.Undisturbed (w : World) : Thread → Prop
  | .edit (.loaded action spec) =>
    ∀ b ∈ w.actions, b.id = action.id → b.accountId = action.accountId ∧ SamePrior R spec action b
  | .edit (.replacing _ account path existing specs) =>
    (listForPath account path w.actions).map (·.id) = existing.map (·.id) ∧
      ∀ spec ∈ specs, ∀ a ∈ existing, spec.id = some a.id →
        ∀ b ∈ listForPath account path w.actions, b.id = a.id → SamePrior R spec a b
  | _ => True

/-- **Every edit commits undisturbed.** -/
def Undisturbed : StepCond World Thread := fun c p w t =>
  ∀ x, Commits R (c.thread p) c.shared w t x → (c.thread p).Undisturbed R c.shared

/-! ## What edits store -/

/-- The dump of a config, under its kind. -/
def IsDump (kind : String) (config : Json) : Prop := ∃ c, R.kind c = kind ∧ R.modelDump c = config

/-- Everything that a transaction stores is a dump. -/
structure ChainWrite.Dumps (x : ChainWrite) : Prop where
  updated : ∀ u ∈ x.updated, IsDump R u.2.1 u.2.2
  created : ∀ a ∈ x.created, IsDump R a.kind a.config

variable {R}

theorem IsDump.loads {kind : String} {config : Json} (h : IsDump R kind config) :
    ∃ c, parseConfig R kind config = .ok c := by
  obtain ⟨c, rfl, rfl⟩ := h
  obtain ⟨f, c', hf, hc, -⟩ := R.reload c
  exact ⟨c', by rw [parseConfig, hf]; exact hc⟩

theorem isDump_merged {kind : String} {data : Json} {prior : Option C} {c : C}
    (h : mergeConfig R kind data prior = .ok c) : IsDump R kind (R.modelDump c) :=
  ⟨c, kind_mergeConfig h, rfl⟩

theorem setConfig_dumps {action : WatchAction} {spec : WatchActionInput} {x : ChainWrite}
    (h : setConfig R action spec = .ok x) : x.Dumps R := by
  obtain ⟨prior, -, h⟩ := Except.bind_eq_ok.mp h
  obtain ⟨merged, hm, h⟩ := Except.bind_eq_ok.mp h
  obtain rfl := Except.pure_eq_ok.mp h
  refine ⟨fun u hu => ?_, nofun⟩
  obtain rfl := List.mem_singleton.mp hu
  exact isDump_merged (Except.mapError_eq_ok.mp hm)

theorem add_dumps {newId account path : Id} {spec : WatchActionInput} {rank : Option ℤ}
    {t : List WatchAction} {x : ChainWrite} (h : add R newId account path spec rank t = .ok x) :
    x.Dumps R := by
  obtain ⟨c, hc, h⟩ := Except.bind_eq_ok.mp h
  obtain rfl := Except.pure_eq_ok.mp h
  refine ⟨nofun, fun a ha => ?_⟩
  obtain rfl := List.mem_singleton.mp ha
  exact ⟨c, kind_validateConfig (Except.mapError_eq_ok.mp hc), rfl⟩

theorem remove_dumps (account path id : Id) (t : List WatchAction) :
    (remove account path id t).Dumps R :=
  ⟨by simp [remove], by simp [remove]⟩

theorem reconcileOne_dumps {mint : Id → Id} {account path : Id} {existing : List WatchAction}
    {acc acc' : Reconcile} {spec : WatchActionInput}
    (hu : ∀ u ∈ acc.updated, IsDump R u.2.1 u.2.2)
    (hc : ∀ a ∈ acc.created, IsDump R a.kind a.config)
    (h : reconcileOne R mint account path existing acc spec = .ok acc') :
    (∀ u ∈ acc'.updated, IsDump R u.2.1 u.2.2) ∧ ∀ a ∈ acc'.created, IsDump R a.kind a.config := by
  obtain ⟨_, prior, merged, -, -, hm, ⟨a, -, -, -, -, rfl⟩ | ⟨-, -, rfl⟩⟩ := reconcileOne_eq_ok h
  · refine ⟨fun u hu' => ?_, hc⟩
    rcases List.mem_append.mp hu' with hu' | hu'
    · exact hu u hu'
    · obtain rfl := List.mem_singleton.mp hu'
      exact isDump_merged hm
  · refine ⟨hu, fun a ha => ?_⟩
    rcases List.mem_append.mp ha with ha | ha
    · exact hc a ha
    · obtain rfl := List.mem_singleton.mp ha
      exact isDump_merged hm

theorem replaceChain_dumps {mint : Id → Id} {account path : Id} {existing : List WatchAction}
    {specs : List WatchActionInput} {x : ChainWrite}
    (h : replaceChain R mint account path existing specs = .ok x) : x.Dumps R := by
  obtain ⟨acc, hacc, -, -, -, hu, hc, -⟩ := replaceChain_eq_ok h
  have hi := Except.of_foldlM_eq_ok (P := fun acc : Reconcile =>
    (∀ u ∈ acc.updated, IsDump R u.2.1 u.2.2) ∧ ∀ a ∈ acc.created, IsDump R a.kind a.config)
    (fun _ _ _ hb hs => reconcileOne_dumps hb.1 hb.2 hs) ⟨by simp, by simp⟩ hacc
  exact ⟨hu ▸ hi.1, hc ▸ hi.2⟩

/-- **A row after a transaction**: the kind and config of a row from before, or a dump. -/
theorem ChainWrite.Dumps.row {x : ChainWrite} {t : List WatchAction} (hx : x.Dumps R)
    {b : WatchAction} (hb : b ∈ x.actions t) :
    (∃ a ∈ t, a.id = b.id ∧ a.kind = b.kind ∧ a.config = b.config) ∨ IsDump R b.kind b.config := by
  obtain ⟨a, ha, rfl⟩ := List.mem_map.mp hb
  rw [x.rankRow_kind, x.rankRow_config, x.rankRow_id]
  rcases List.mem_append.mp ha with ha | ha
  · obtain ⟨a, hold, rfl⟩ := List.mem_map.mp ha
    have hold := (List.mem_filter.mp hold).1
    obtain h | ⟨kind, config, -, hmem, h⟩ := x.updateRow_cases a
    · rw [h]
      exact .inl ⟨a, hold, rfl, rfl, rfl⟩
    · rw [h]
      exact .inr (hx.updated _ hmem)
  · exact .inr (hx.created a ha)

/-! ## What an undisturbed edit computes -/

/-- The row `b` has the kind and config of `a`, or was written since. -/
def ReadOrDumped (R : Registry C) (a b : WatchAction) : Prop :=
  (b.kind = a.kind ∧ b.config = a.config) ∨ IsDump R b.kind b.config

/-- Rows that agree on kind and config are the same prior. -/
theorem loadPrior_congr {a b : WatchAction} (hk : b.kind = a.kind) (hc : b.config = a.config)
    (kind : String) : loadPrior R (some b) kind = loadPrior R (some a) kind := by
  simp only [loadPrior, Option.filter_some, hk]
  split_ifs <;> simp [loadConfig, hk, hc]

/-- A row of another kind is no prior. -/
theorem loadPrior_of_ne {a : WatchAction} {kind : String} (h : a.kind ≠ kind) :
    loadPrior R (some a) kind = .ok none := by
  have hf : ((some a).filter fun a => decide (a.kind = kind)) = none := by
    simp [Option.filter_some, h]
  rw [loadPrior, hf]
  rfl

/-- A prior is of the submitted kind. -/
theorem kind_loadPrior {a : WatchAction} {kind : String} {p : C}
    (h : loadPrior R (some a) kind = .ok (some p)) : R.kind p = kind := by
  by_cases hk : a.kind = kind
  · have hp := Except.mapError_eq_ok.mp h
    simp only [Option.filter_some, hk, decide_true, if_true] at hp
    obtain ⟨c, hc, he⟩ := Except.bind_eq_ok.mp hp
    obtain rfl := Option.some.inj (Except.pure_eq_ok.mp he)
    rw [← hk]
    exact kind_parseConfig hc
  · rw [loadPrior_of_ne hk] at h
    cases h

/-- A row that was written since loads, so it is a prior of its own kind, or none. -/
theorem exists_loadPrior {a : WatchAction} (ha : IsDump R a.kind a.config) (kind : String) :
    ∃ p, loadPrior R (some a) kind = .ok p := by
  by_cases hk : a.kind = kind
  · obtain ⟨c, hc⟩ := ha.loads
    refine ⟨some c, ?_⟩
    have hf : ((some a).filter fun a => decide (a.kind = kind)) = some a := by
      simp [Option.filter_some, hk]
    have hload : loadConfig R a = .ok c := hc
    rw [loadPrior, hf, Option.mapM_some, hload]
    rfl
  · exact ⟨none, loadPrior_of_ne hk⟩

/-- A config that carries nothing merges to itself. -/
theorem CarriesNothing.merge {spec : WatchActionInput} (h : CarriesNothing R spec)
    {prior prior' : Option C} (hp : ∀ p ∈ prior, R.kind p = spec.kind)
    (hp' : ∀ p ∈ prior', R.kind p = spec.kind) {c : C}
    (hm : mergeConfig R spec.kind spec.config prior = .ok c) :
    mergeConfig R spec.kind spec.config prior' = .ok c := by
  obtain ⟨s, hs, hm⟩ := Except.bind_eq_ok.mp hm
  have hself : ∀ q : Option C, (∀ p ∈ q, R.kind p = spec.kind) →
      mergeConfig R spec.kind spec.config q = R.enforceActionPolicy s := by
    intro q hq
    cases q with
    | none => simp [mergeConfig, hs, bind, Except.bind, pure, Except.pure]
    | some p => simp [mergeConfig, hs, bind, Except.bind, (h s hs).2 p (hq p rfl)]
  have hfirst : mergeConfig R spec.kind spec.config prior = .ok c :=
    Except.bind_eq_ok.mpr ⟨s, hs, hm⟩
  rw [hself prior' hp', ← hself prior hp, hfirst]

/-- **The same prior merges to the same config.** -/
theorem SamePrior.merge {spec : WatchActionInput} {a b : WatchAction} (h : SamePrior R spec a b)
    (hb : ReadOrDumped R a b) {prior : Option C} (hl : loadPrior R (some a) spec.kind = .ok prior)
    {c : C} (hm : mergeConfig R spec.kind spec.config prior = .ok c) :
    ∃ prior', loadPrior R (some b) spec.kind = .ok prior' ∧
      mergeConfig R spec.kind spec.config prior' = .ok c := by
  rcases h with ⟨hk, hc⟩ | ⟨hka, hkb⟩ | hn
  · exact ⟨prior, by rw [loadPrior_congr hk hc, hl], hm⟩
  · rw [loadPrior_of_ne hka] at hl
    obtain rfl := Except.ok.inj hl
    exact ⟨none, loadPrior_of_ne hkb, hm⟩
  · rcases hb with ⟨hk, hc⟩ | hd
    · exact ⟨prior, by rw [loadPrior_congr hk hc, hl], hm⟩
    · obtain ⟨prior', hl'⟩ := exists_loadPrior hd spec.kind
      refine ⟨prior', hl', hn.merge (fun p hp => ?_) (fun p hp => ?_) hm⟩
      · obtain rfl := hp
        exact kind_loadPrior hl
      · obtain rfl := hp
        exact kind_loadPrior hl'

/-- **`set_config` computes the same transaction from the row as it is now.** -/
theorem setConfig_samePrior {a b : WatchAction} {spec : WatchActionInput} {x : ChainWrite}
    (hid : b.id = a.id) (hacc : b.accountId = a.accountId) (h : SamePrior R spec a b)
    (hb : ReadOrDumped R a b) (hx : setConfig R a spec = .ok x) : setConfig R b spec = .ok x := by
  obtain ⟨prior, hl, hx⟩ := Except.bind_eq_ok.mp hx
  obtain ⟨c, hm, hx⟩ := Except.bind_eq_ok.mp hx
  obtain rfl := Except.pure_eq_ok.mp hx
  obtain ⟨prior', hl', hm'⟩ := h.merge hb hl (Except.mapError_eq_ok.mp hm)
  refine Except.bind_eq_ok.mpr ⟨prior', hl', Except.bind_eq_ok.mpr
    ⟨c, Except.mapError_eq_ok.mpr hm', ?_⟩⟩
  rw [hid, hacc]
  rfl

theorem refuseMasked_samePrior {a b : WatchAction} {spec : WatchActionInput}
    (h : SamePrior R spec a b) (hx : refuseMasked R (some a) spec = .ok ()) :
    refuseMasked R (some b) spec = .ok () := by
  rcases h with ⟨hk, -⟩ | ⟨hka, hkb⟩ | hn
  · simpa [refuseMasked, Option.filter_some, hk] using hx
  · simpa [refuseMasked, Option.filter_some, hka, hkb] using hx
  · have hm : submittedHasMaskedSecret R spec = false := by
      rw [submittedHasMaskedSecret]
      split
      · exact (hn _ ‹_›).1
      · rfl
    simp [refuseMasked, hm]

section Replace

variable {mint : Id → Id} {account path : Id} {existing rows : List WatchAction}

/-- A submitted id names rows of the same id in two tables with the same ids. -/
theorem resolvePrior_congr (hids : rows.map (·.id) = existing.map (·.id)) {kept : List Id}
    {id : Option Id} {row : Option WatchAction} (h : resolvePrior existing kept id = .ok row) :
    (row = none ∧ resolvePrior rows kept id = .ok none) ∨
      ∃ a ∈ existing, ∃ b ∈ rows, row = some a ∧ id = some a.id ∧ b.id = a.id ∧
        resolvePrior rows kept id = .ok (some b) := by
  rcases resolvePrior_eq_ok h with ⟨a, ha, rfl, rfl, hk⟩ | ⟨rfl, rfl⟩
  · have hm : a.id ∈ rows.map (·.id) := hids ▸ List.mem_map_of_mem ha
    obtain ⟨c, hc, hca⟩ := List.mem_map.mp hm
    cases hf : rows.find? fun b => decide (b.id = a.id) with
    | none => exact absurd (decide_eq_true hca) (List.find?_eq_none.mp hf c hc)
    | some b =>
      have hid : b.id = a.id := by simpa using List.find?_some hf
      refine .inr ⟨a, ha, b, List.mem_of_find?_eq_some hf, rfl, rfl, hid, ?_⟩
      rw [resolvePrior, hf]
      exact if_neg hk
  · exact .inl ⟨rfl, rfl⟩

/-- One submitted action, reconciled with the rows as they are now. -/
theorem reconcileOne_samePrior (hids : rows.map (·.id) = existing.map (·.id))
    (hread : ∀ a ∈ existing, ∀ b ∈ rows, b.id = a.id → ReadOrDumped R a b)
    {spec : WatchActionInput} (hsame : ∀ a ∈ existing, spec.id = some a.id →
      ∀ b ∈ rows, b.id = a.id → SamePrior R spec a b) {acc acc' : Reconcile}
    (h : reconcileOne R mint account path existing acc spec = .ok acc') :
    reconcileOne R mint account path rows acc spec = .ok acc' := by
  obtain ⟨row, hrow, h⟩ := Except.bind_eq_ok.mp h
  obtain ⟨_, hmask, h⟩ := Except.bind_eq_ok.mp h
  obtain ⟨prior, hl, h⟩ := Except.bind_eq_ok.mp h
  obtain ⟨c, hm, h⟩ := Except.bind_eq_ok.mp h
  rcases resolvePrior_congr hids hrow with ⟨rfl, hrow'⟩ | ⟨a, ha, b, hb, rfl, hid, hba, hrow'⟩
  · refine Except.bind_eq_ok.mpr ⟨none, hrow', Except.bind_eq_ok.mpr ⟨_, hmask, ?_⟩⟩
    exact Except.bind_eq_ok.mpr ⟨prior, hl, Except.bind_eq_ok.mpr ⟨c, hm, h⟩⟩
  · have hs := hsame a ha hid b hb hba
    obtain ⟨prior', hl', hm'⟩ :=
      hs.merge (hread a ha b hb hba) hl (Except.mapError_eq_ok.mp hm)
    refine Except.bind_eq_ok.mpr ⟨some b, hrow', Except.bind_eq_ok.mpr
      ⟨(), refuseMasked_samePrior hs hmask, Except.bind_eq_ok.mpr ⟨prior', hl',
        Except.bind_eq_ok.mpr ⟨c, Except.mapError_eq_ok.mpr hm', ?_⟩⟩⟩⟩
    rw [← h]
    simp only [hba]

/-- Rows of known kinds are not hidden. -/
theorem refuseHidden_eq_ok {removed : List WatchAction} :
    refuseHidden R removed = .ok () ↔ ∀ a ∈ removed, IsKnownKind R a.kind := by
  have hnil : (removed.filter fun a => ! decide (IsKnownKind R a.kind)).map (·.id) = [] ↔
      ∀ a ∈ removed, IsKnownKind R a.kind := by
    simp
  rw [← hnil, refuseHidden]
  split
  · rename_i he
    exact ⟨fun _ => he, fun _ => rfl⟩
  · rename_i he
    exact ⟨nofun, fun hn => absurd hn he⟩

/-- What is stored under a kind that loads is of a known kind. -/
theorem IsDump.known {kind : String} {config : Json} (h : IsDump R kind config) :
    IsKnownKind R kind := by
  obtain ⟨c, rfl, -⟩ := h
  obtain ⟨f, _, hf, -⟩ := R.reload c
  rw [IsKnownKind, hf]
  rfl

/-- The ids of the rows that were not kept. -/
theorem removed_ids (hids : rows.map (·.id) = existing.map (·.id)) (kept : List Id) :
    (rows.filter fun a => decide (a.id ∉ kept)).map (·.id) =
      (existing.filter fun a => decide (a.id ∉ kept)).map (·.id) := by
  have hf : ∀ l : List WatchAction, (l.filter fun a => decide (a.id ∉ kept)).map (·.id) =
      (l.map (·.id)).filter fun id => decide (id ∉ kept) := by
    intro l
    rw [List.filter_map]
    rfl
  rw [hf, hf, hids]

/-- **`replace_chain` computes the same transaction from the rows as they are now.** -/
theorem replaceChain_samePrior (hids : rows.map (·.id) = existing.map (·.id))
    (hread : ∀ a ∈ existing, ∀ b ∈ rows, b.id = a.id → ReadOrDumped R a b)
    {specs : List WatchActionInput} (hsame : ∀ spec ∈ specs, ∀ a ∈ existing, spec.id = some a.id →
      ∀ b ∈ rows, b.id = a.id → SamePrior R spec a b) {x : ChainWrite}
    (hx : replaceChain R mint account path existing specs = .ok x) :
    replaceChain R mint account path rows specs = .ok x := by
  obtain ⟨acc, hacc, hx⟩ := Except.bind_eq_ok.mp hx
  obtain ⟨_, hhid, hx⟩ := Except.bind_eq_ok.mp hx
  obtain rfl := Except.pure_eq_ok.mp hx
  have hlen : rows.length = existing.length := by
    rw [← List.length_map (f := (·.id)), hids, List.length_map]
  have hfold : specs.foldlM (reconcileOne R mint account path rows)
      { tempRank := rows.length + 1 } = .ok acc := by
    rw [hlen]
    exact Except.foldlM_congr_ok
      (fun spec hs _ _ h => reconcileOne_samePrior hids hread (hsame spec hs) h) hacc
  have hshown : refuseHidden R (rows.filter fun a => decide (a.id ∉ acc.kept)) = .ok () := by
    refine refuseHidden_eq_ok.mpr fun b hb => ?_
    obtain ⟨hb, hk⟩ := List.mem_filter.mp hb
    have hm : b.id ∈ existing.map (·.id) := hids ▸ List.mem_map_of_mem hb
    obtain ⟨a, ha, hid⟩ := List.mem_map.mp hm
    rcases hread a ha b hb hid.symm with ⟨hkind, -⟩ | hd
    · rw [hkind]
      refine refuseHidden_eq_ok.mp hhid a (List.mem_filter.mpr ⟨ha, ?_⟩)
      rw [hid]
      exact hk
    · exact hd.known
  refine Except.bind_eq_ok.mpr ⟨acc, hfold, Except.bind_eq_ok.mpr ⟨(), hshown, ?_⟩⟩
  rw [removed_ids hids]
  rfl

end Replace

/-! ## Whole runs -/

section Runs

variable {S : Settings} {E : Executors} {on : Component → Prop} {t t' : Thread} {w w' : World}
  {ok : StepCond World Thread} {c : Conf World Thread} {tr : List (Move World Thread)}

/-- The rows that an edit has read are as it read them, or were written since. -/
def Thread.Read (R : Registry C) (w : World) : Thread → Prop
  | .edit (.loaded action _) => ∀ b ∈ w.actions, b.id = action.id → ReadOrDumped R action b
  | .edit (.replacing _ _ _ existing _) =>
    ∀ a ∈ existing, ∀ b ∈ w.actions, b.id = a.id → ReadOrDumped R a b
  | _ => True

/-- What an edit's step stores. -/
theorem Edit.Step.dumps {e e' : Edit} (h : Edit.Step R e w w' e') : w'.actions = w.actions ∨
    ∃ x : ChainWrite, x.Dumps R ∧ w'.actions = x.actions w.actions := by
  cases h with
  | setConfig hx ha hl => exact .inr ⟨_, setConfig_dumps hx, rfl⟩
  | add hp hx hl => exact .inr ⟨_, add_dumps hx, rfl⟩
  | remove hp hl => exact .inr ⟨_, remove_dumps .., rfl⟩
  | replaceChain hx hl => exact .inr ⟨_, replaceChain_dumps hx, rfl⟩
  | _ => exact .inl rfl

/-- **A row after a step**: the kind and config of a row from before, or a dump. -/
theorem System.dumps (h : System S E R on t w w' t') {b : WatchAction} (hb : b ∈ w'.actions) :
    (∃ a ∈ w.actions, a.id = b.id ∧ a.kind = b.kind ∧ a.config = b.config) ∨
      IsDump R b.kind b.config := by
  have same (hw : w'.actions = w.actions) : (∃ a ∈ w.actions, a.id = b.id ∧ a.kind = b.kind ∧
      a.config = b.config) ∨ IsDump R b.kind b.config :=
    .inl ⟨b, hw ▸ hb, rfl, rfl, rfl⟩
  cases t with
  | edit e =>
    cases h with
    | edit _ h =>
      rcases h.dumps with hw | ⟨x, hx, hw⟩
      · exact same hw
      · exact hx.row (hw ▸ hb)
  | _ =>
    rcases h.actions with hw | ⟨_, _, _, _, he, -⟩
    · exact same hw
    · cases he

theorem ReadOrDumped.step {a b : WatchAction} (h : System S E R on t w w' t') (hb : b ∈ w'.actions)
    (hid : b.id = a.id) (hr : ∀ b ∈ w.actions, b.id = a.id → ReadOrDumped R a b) :
    ReadOrDumped R a b := by
  rcases h.dumps hb with ⟨b', hb', hbid, hk, hc⟩ | hd
  · rw [ReadOrDumped, ← hk, ← hc]
    exact hr b' hb' (hbid.trans hid)
  · exact .inr hd

/-- What an edit has read, after a step of another thread. -/
theorem Thread.Read.other {u : Thread} (hu : u.Read R w) (h : System S E R on t w w' t') :
    u.Read R w' := by
  cases u with
  | edit e =>
    cases e with
    | idle => trivial
    | loaded action spec => exact fun b hb hid => .step h hb hid hu
    | replacing mint account path existing specs =>
      exact fun a ha b hb hid => .step h hb hid (hu a ha)
  | _ => trivial

/-- What an edit has read, after its own step. -/
theorem Thread.Read.own (hok : ActionsOk w.actions) (h : System S E R on t w w' t') :
    t'.Read R w' := by
  cases h with
  | edit _ h =>
    cases h with
    | load ha =>
      intro b hb hid
      obtain rfl := hok.eq_of_id hb ha hid
      exact .inl ⟨rfl, rfl⟩
    | lockChain =>
      intro a ha b hb hid
      obtain rfl := hok.eq_of_id hb (mem_listForPath.mp ha).1 hid
      exact .inl ⟨rfl, rfl⟩
    | _ => trivial
  | _ => trivial

/-- **An undisturbed commit is the edit served alone.** -/
theorem Commits.alone {x : EditRequest} (h : Commits R t w w' t' x) (hok : ActionsOk w.actions)
    (hr : t.Read R w) (hu : t.Undisturbed R w) : x.alone R w.actions = some w'.actions := by
  cases h with
  | @setConfig w action spec x hx ha =>
    obtain ⟨b, hb, hid⟩ := ha
    obtain ⟨hacc, hs⟩ := hu b hb hid
    have hget : getAction action.accountId action.id w.actions = some b := by
      cases hf : w.actions.find? fun a => decide (a.id = action.id ∧
          a.accountId = action.accountId) with
      | none => exact absurd (decide_eq_true ⟨hid, hacc⟩) (List.find?_eq_none.mp hf b hb)
      | some d =>
        obtain ⟨hd, hdid, -⟩ := of_getAction hf
        rw [getAction, hf, hok.eq_of_id hd hb (hdid.trans hid.symm)]
    have hx' := setConfig_samePrior hid hacc hs (hr b hb hid) hx
    simp only [EditRequest.alone, hget, Option.bind_eq_bind, Option.bind_some, hx',
      Except.toOption]
    rfl
  | add hx =>
    simp only [EditRequest.alone, hx, Except.toOption]
    rfl
  | remove => rfl
  | @replaceChain w mint account path existing specs x locks hx =>
    have hx' := replaceChain_samePrior hu.1
      (fun a ha b hb hid => hr a ha b (mem_listForPath.mp hb).1 hid) hu.2 hx
    simp only [EditRequest.alone, hx', Except.toOption]
    rfl

/-- A step of an edit commits it, or leaves the actions. -/
theorem Edit.Step.commits {e e' : Edit} (h : Edit.Step R e w w' e') : w'.actions = w.actions ∨
    ∃ x, Commits R (.edit e) w w' (.edit e') x := by
  cases h with
  | setConfig hx ha hl => exact .inr ⟨_, .setConfig hx ha⟩
  | add hp hx hl => exact .inr ⟨_, .add hx⟩
  | remove hp hl => exact .inr ⟨_, .remove⟩
  | replaceChain hx hl => exact .inr ⟨_, .replaceChain hx⟩
  | _ => exact .inl rfl

/-- Every run has a list of accepted edits. -/
theorem exists_accepted {init : Conf World Thread → Prop} (h : Run (System S E R on) init ok tr c) :
    ∃ xs, Accepted R tr xs := by
  induction h with
  | init => exact ⟨[], .nil⟩
  | @step c tr p s t _ hs _ ih =>
    obtain ⟨xs, hx⟩ := ih
    rcases hs.actions with hw | ⟨e, e', _, _, he, rfl, -⟩
    · exact ⟨xs, .other hx hw⟩
    · rw [he] at hs
      cases hs with
      | edit _ hs =>
        rcases hs.commits with hw | ⟨x, hc⟩
        · exact ⟨xs, .other hx hw⟩
        · exact ⟨x :: xs, .commit hx (by rwa [Move.prev, he])⟩

/-- **Undisturbed edits leave the table that they leave one after the other**, in the order of their
commits: in every state of every run, with anything else going on. -/
theorem edits_serial {table : List WatchAction}
    (h : Run (System S E R on) (Init fun w => ActionsOk w.actions ∧ w.actions = table)
      (Undisturbed R) tr c) {xs : List EditRequest} (hx : Accepted R tr xs) :
    serial R table xs.reverse = some c.shared.actions := by
  have hall := h.each
    (G := fun tr w => ActionsOk w.actions ∧
      ∀ xs, Accepted R tr xs → serial R table xs.reverse = some w.actions)
    (L := fun _ w _ t => t.Read R w) ?_ ?_ ?_
  · exact hall.1.2 xs hx
  · rintro c ⟨⟨hok, rfl⟩, hidle⟩
    refine ⟨⟨hok, fun xs hx => ?_⟩, fun p => ?_⟩
    · cases hx
      rfl
    · have hp := hidle p
      cases ht : c.thread p with
      | edit e =>
        rw [ht] at hp
        obtain rfl : e = .idle := hp
        trivial
      | _ => trivial
  · intro tr c p w t hG hL hs hu
    refine ⟨⟨?_, fun xs hx => ?_⟩, .own hG.1 hs⟩
    · rcases hs.actions with he | ⟨_, _, x, _, _, _, _, hl, rfl⟩
      · rw [he]
        exact hG.1
      · exact hl.actionsOk hG.1
    · cases hx with
      | @commit _ _ x xs hx hc =>
        rw [List.reverse_cons, serial, List.foldlM_append]
        have hxs : xs.reverse.foldlM (EditRequest.alone R) table = some c.shared.actions :=
          hG.2 xs hx
        have hal : x.alone R c.shared.actions = some w.actions :=
          Commits.alone hc hG.1 (hL p) (hu x hc)
        rw [hxs, Option.bind_eq_bind, Option.bind_some, List.foldlM_cons, hal]
        rfl
      | other hx hw =>
        have hw : w.actions = c.shared.actions := hw
        rw [hw]
        exact hG.2 xs hx
  · exact fun _ hL hs _ _ => (hL _).other hs

end Runs

/-! ## A new token and a masked one -/

/-- What `set_config` writes to the webhook. -/
def hookWrite (token : String) : ChainWrite where
  account := 1
  updated := [(7, "webhook", (hook token).modelDump)]
  cleared := [7]

theorem rotate_old : setConfig sampleActions (hookRow "old") (hookSpec "new") =
    .ok (hookWrite "new") := (rfl)

theorem keepMasked_new : setConfig sampleActions (hookRow "new") (hookSpec "***") =
    .ok (hookWrite "new") := (rfl)

theorem keepMasked_old : setConfig sampleActions (hookRow "old") (hookSpec "***") =
    .ok (hookWrite "old") := (rfl)

/-- The store with the token. -/
def hookStore (token : String) : World := { actions := [hookRow token] }

theorem hookWrite_lands (token token' : String) : (hookWrite token).Lands (hookStore token') :=
  ⟨by simp [hookWrite], by simp [hookWrite], List.nodup_singleton _, by simp [hookStore]⟩

theorem step_loadHook (token : String) (spec : WatchActionInput) : Edit.Step sampleActions .idle
    (hookStore token) (hookStore token) (.loaded (hookRow token) spec) :=
  .load (List.mem_singleton_self _)

/-- An editor of the webhook commits. -/
theorem step_saveHook (stored : String) {token token' : String} {spec : WatchActionInput}
    (hx : setConfig sampleActions (hookRow token) spec = .ok (hookWrite token')) :
    Edit.Step sampleActions (.loaded (hookRow token) spec) (hookStore stored) (hookStore token')
      .idle :=
  .setConfig hx ⟨hookRow stored, List.mem_singleton_self _, rfl⟩ (hookWrite_lands _ _)

theorem commits_saveHook {token token' stored : String} {spec : WatchActionInput}
    (hx : setConfig sampleActions (hookRow token) spec = .ok (hookWrite token')) :
    Commits sampleActions (.edit (.loaded (hookRow token) spec)) (hookStore stored)
      (hookStore token') (.edit .idle) (.setConfig 1 7 spec) :=
  .setConfig hx ⟨hookRow stored, List.mem_singleton_self _, rfl⟩

/-- Two editors. -/
def twoEditors : ℕ → Thread
  | 0 | 1 => .edit .idle
  | _ => .env

theorem init_hookStore : Init (fun w => ActionsOk w.actions ∧ w.actions = [hookRow "old"])
    ⟨hookStore "old", twoEditors⟩ := by
  refine ⟨⟨⟨by decide, by decide⟩, rfl⟩, fun p => ?_⟩
  match p with
  | 0 | 1 => rfl
  | _ + 2 => trivial

/-- The system over the sample deployment with its built-in kinds. -/
abbrev HookSystem : ThreadRel World Thread := System {} sampleExecutors sampleActions (· = .edit)

/-- An edit that stores a new token. -/
def rotate : EditRequest := .setConfig 1 7 (hookSpec "new")

/-- An edit that leaves the token masked. -/
def keepMasked : EditRequest := .setConfig 1 7 (hookSpec "***")

/-- One editor after the other: the new token survives the edit that leaves it masked. -/
theorem edits_serial_sample :
    serial sampleActions [hookRow "old"] [rotate, keepMasked] = some [hookRow "new"] := by
  have same (token : String) (spec : WatchActionInput) :
      (Thread.edit (.loaded (hookRow token) spec)).Undisturbed sampleActions (hookStore token) := by
    intro b hb _
    obtain rfl := List.mem_singleton.mp hb
    exact ⟨rfl, .inl ⟨rfl, rfl⟩⟩
  have h₀ : Run HookSystem (Init fun w => ActionsOk w.actions ∧ w.actions = [hookRow "old"])
      (Undisturbed sampleActions) [] ⟨hookStore "old", twoEditors⟩ := .init init_hookStore
  have h₁ := h₀.next 0 (.edit rfl (step_loadHook "old" (hookSpec "new"))) rfl rfl
    fun _ _ => trivial
  have h₂ := h₁.again (.edit rfl (step_saveHook "old" rotate_old)) fun _ _ => same _ _
  have h₃ := h₂.next 1 (.edit rfl (step_loadHook "new" (hookSpec "***"))) rfl rfl
    fun _ _ => trivial
  have h₄ := h₃.again (.edit rfl (step_saveHook "new" keepMasked_new)) fun _ _ => same _ _
  exact edits_serial h₄ (.commit (.other (.commit (.other .nil rfl)
    (commits_saveHook rotate_old)) rfl) (commits_saveHook keepMasked_new))

/-- The two orders of two edits. -/
theorem perm_two {α : Type} {a b : α} {l : List α} (h : l.Perm [a, b]) : l = [a, b] ∨ l = [b, a] := by
  obtain ⟨x, y, rfl⟩ := List.length_eq_two.mp h.length_eq
  rcases List.mem_pair.mp (h.subset List.mem_cons_self) with rfl | rfl
  · exact .inl (by rw [List.singleton_perm_singleton.mp h.cons_inv])
  · exact .inr (by rw [List.singleton_perm_singleton.mp (h.trans (.swap _ _ _)).cons_inv])

/-- **A secret is lost.** Two editors load the webhook; the first stores a new token; the second
has left the token masked, and stores the old one. Neither order of the two edits leaves it. -/
theorem secret_lost : ∃ (c : Conf World Thread) (tr : List (Move World Thread)),
    Run HookSystem (Init fun w => ActionsOk w.actions ∧ w.actions = [hookRow "old"])
      (fun _ _ _ _ => True) tr c ∧
    Accepted sampleActions tr [keepMasked, rotate] ∧
    ∀ xs, xs.Perm [keepMasked, rotate] →
      ∃ table, serial sampleActions [hookRow "old"] xs = some table ∧
        table.map WatchAction.node ≠ c.shared.actions.map WatchAction.node := by
  have h₀ : Run HookSystem (Init fun w => ActionsOk w.actions ∧ w.actions = [hookRow "old"])
      (fun _ _ _ _ => True) [] ⟨hookStore "old", twoEditors⟩ := .init init_hookStore
  have h₁ := h₀.next 0 (.edit rfl (step_loadHook "old" (hookSpec "new"))) rfl rfl trivial
  have h₂ := h₁.next 1 (.edit rfl (step_loadHook "old" (hookSpec "***"))) rfl rfl trivial
  have h₃ := h₂.next 0 (.edit rfl (step_saveHook "old" rotate_old)) rfl rfl trivial
  have h₄ := h₃.next 1 (.edit rfl (step_saveHook "new" keepMasked_old)) rfl rfl trivial
  have hserial : ∀ xs, xs.Perm [keepMasked, rotate] →
      serial sampleActions [hookRow "old"] xs = some [hookRow "new"] := by
    intro xs hp
    rcases perm_two hp with rfl | rfl
    · rfl
    · rfl
  refine ⟨_, _, h₄, .commit (.commit (.other (.other .nil rfl) rfl)
    (commits_saveHook rotate_old)) (commits_saveHook keepMasked_old), fun xs hp =>
      ⟨_, hserial xs hp, ?_⟩⟩
  show [hookRow "new"].map WatchAction.node ≠ [hookRow "old"].map WatchAction.node
  decide

end OpenMagpie
