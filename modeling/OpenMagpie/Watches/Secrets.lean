import OpenMagpie.Watches.Kinds
import OpenMagpie.Watches.ReplaceChain

/-!
# Masked secrets

* `HasMaskedHeader`: a webhook config with a header whose value is the redaction sentinel.
* `mergeConfig_unmasked`: a merge with a clean config of the kind gives a clean config.
* `Unrestorable`: a submitted header that is masked and has no stored value to come from.
* `Mutated`: the action tables that calls on chains lead to. **`headers_unmasked`**: calls that meet
  `ChainCall.Spelled` store no masked header and refuse what they cannot restore;
  `header_masked`: calls that do not.
* **`restored_secrets`**: which values a merge restores, and where the merged config sends them.
-/

set_option autoImplicit false

namespace OpenMagpie

variable {D : Deployment} {P : Type} {plugins : PluginRegistry P}

/-! ## Masked headers -/

/-- A webhook config with a header that holds the sentinel. -/
def HasMaskedHeader : ActionConfig D.unicode P → Prop
  | .webhook c => ∃ h ∈ c.headers, h.2 = redacted
  | _ => False

instance (c : ActionConfig D.unicode P) : Decidable (HasMaskedHeader c) := by
  cases c <;> unfold HasMaskedHeader <;> infer_instance

variable (D plugins) in
/-- No row with this kind and config blob holds the sentinel as a header. -/
def Unmasked (kind : String) (config : Json) : Prop :=
  ∀ c, parseConfig (actionRegistry D plugins) kind config = .ok c → ¬ HasMaskedHeader c

theorem exists_webhook {c : ActionConfig D.unicode P}
    (h : (actionRegistry D plugins).kind c = "webhook") : ∃ w, c = .webhook w := by
  cases c with
  | semanticFilter _ => exact absurd (show "semantic_filter" = "webhook" from h) (by decide)
  | extract _ => exact absurd (show "extract" = "webhook" from h) (by decide)
  | webhook w => exact ⟨w, rfl⟩
  | log _ => exact absurd (show "log" = "webhook" from h) (by decide)
  | plugin p =>
    have hp := plugins.kind_not_builtin p
    rw [show plugins.kind p = "webhook" from h] at hp
    exact absurd (by decide) hp

variable (plugins) in
/-- Only the webhook kind has headers. -/
theorem kind_of_hasMaskedHeader {c : ActionConfig D.unicode P} (h : HasMaskedHeader c) :
    (actionRegistry D plugins).kind c = "webhook" := by
  cases c with
  | webhook c => rfl
  | _ => exact h.elim

variable (plugins) in
/-- **What a row stores.** The dump of a config is as clean as the config. -/
theorem unmasked_modelDump {c : ActionConfig D.unicode P} (h : ¬ HasMaskedHeader c) :
    Unmasked D plugins ((actionRegistry D plugins).kind c)
      ((actionRegistry D plugins).modelDump c) := by
  intro c' hc' hm
  have hk : (actionRegistry D plugins).kind c = "webhook" := by
    rw [← kind_parseConfig hc']
    exact kind_of_hasMaskedHeader plugins hm
  obtain ⟨w, rfl⟩ := exists_webhook hk
  have he : parseConfig (actionRegistry D plugins) "webhook" w.modelDump = .ok (.webhook w) :=
    Except.map_eq_ok.mpr ⟨w, w.modelValidate_modelDump D.lax, rfl⟩
  rw [← Except.ok.inj (he.symm.trans hc')] at hm
  exact h hm

/-- A header after a merge is the submitted one in the clear, or the prior config's. -/
theorem mergeHeader_eq_ok {U : Url.Unicode} {prior : Option (WebhookConfig U)}
    {h h' : String × String} (hm : WebhookConfig.mergeHeader prior h = .ok h') :
    (h.2 ≠ redacted ∧ h' = h) ∨
      (h.2 = redacted ∧ h'.1 = h.1 ∧ ∃ p, prior = some p ∧ h' ∈ p.headers) := by
  rw [WebhookConfig.mergeHeader] at hm
  split_ifs at hm with hne
  · exact .inl ⟨hne, (Except.ok.inj hm).symm⟩
  · cases hl : prior.bind fun p => p.headers.lookup h.1 with
    | none =>
      rw [hl] at hm
      cases hm
    | some v =>
      rw [hl] at hm
      obtain rfl := Except.ok.inj hm
      obtain ⟨p, rfl, hp⟩ := Option.bind_eq_some_iff.mp hl
      obtain ⟨l₁, l₂, he, -⟩ := List.lookup_eq_some_iff.mp hp
      exact .inr ⟨not_not.mp hne, rfl, p, rfl, by simp [he]⟩

/-- **A merge with a clean config gives a clean config.** -/
theorem mergePreserving_unmasked {s p m : ActionConfig D.unicode P} (hp : ¬ HasMaskedHeader p)
    (h : (actionRegistry D plugins).mergePreserving s p = .ok m) : ¬ HasMaskedHeader m := by
  cases s with
  | webhook s =>
    obtain ⟨w, hw, rfl⟩ := Except.map_eq_ok.mp h
    obtain ⟨hh, -⟩ := WebhookConfig.mergePreserving_eq_ok.mp hw
    rintro ⟨h', hm, hv⟩
    obtain ⟨h₀, -, hm₀⟩ := Except.forall₂_mem_right (Except.mapM_eq_ok.mp hh) hm
    rcases mergeHeader_eq_ok hm₀ with ⟨hne, rfl⟩ | ⟨-, -, q, hq, hmem⟩
    · exact hne hv
    · cases p with
      | webhook p =>
        obtain rfl := Option.some.inj hq
        exact hp ⟨h', hmem, hv⟩
      | _ => cases hq
  | plugin s =>
    cases p with
    | plugin p =>
      obtain ⟨a, -, rfl⟩ := Except.map_eq_ok.mp h
      exact not_false
    | _ =>
      obtain rfl := Except.ok.inj h
      exact not_false
  | _ =>
    obtain rfl := Except.ok.inj h
    exact not_false

variable (D plugins) in
/-- `validate_config` lets no masked header of the submission through. -/
def Spelled (kind : String) (data : Json) : Prop :=
  ∀ c, validateConfig (actionRegistry D plugins) kind data = .ok c → ¬ HasMaskedHeader c

theorem parseConfig_of_validateConfig {kind : String} {data : Json} {c : ActionConfig D.unicode P}
    (h : validateConfig (actionRegistry D plugins) kind data = .ok c) :
    parseConfig (actionRegistry D plugins) kind data = .ok c := by
  obtain ⟨s, hs, h⟩ := Except.bind_eq_ok.mp h
  rwa [(actionRegistry D plugins).enforceActionPolicy_eq h]

theorem Unmasked.spelled {kind : String} {data : Json} (h : Unmasked D plugins kind data) :
    Spelled D plugins kind data :=
  fun c hc => h c (parseConfig_of_validateConfig hc)

/-- Without a prior config, a merge is a validation. -/
theorem validateConfig_of_mergeConfig {kind : String} {data : Json} {m : ActionConfig D.unicode P}
    (h : mergeConfig (actionRegistry D plugins) kind data none = .ok m) :
    validateConfig (actionRegistry D plugins) kind data = .ok m := by
  obtain ⟨s, hparse, h⟩ := Except.bind_eq_ok.mp h
  obtain ⟨m', hm, h⟩ := Except.bind_eq_ok.mp h
  obtain rfl := Except.pure_eq_ok.mp hm
  exact Except.bind_eq_ok.mpr ⟨_, hparse, h⟩

/-- What an edit stores is clean when the config it merges with is. -/
theorem mergeConfig_unmasked {kind : String} {data : Json} {p m : ActionConfig D.unicode P}
    (h : mergeConfig (actionRegistry D plugins) kind data (some p) = .ok m)
    (hp : ¬ HasMaskedHeader p) : ¬ HasMaskedHeader m := by
  obtain ⟨s, hparse, h⟩ := Except.bind_eq_ok.mp h
  obtain ⟨m', hm, h⟩ := Except.bind_eq_ok.mp h
  rw [(actionRegistry D plugins).enforceActionPolicy_eq h]
  exact mergePreserving_unmasked hp hm

/-- The prior config of an edit: the loaded row's when the kind stays, else none. -/
theorem loadPrior_eq_ok {C : Type} {R : Registry C} {row : Option WatchAction} {kind : String}
    {prior : Option C} (h : loadPrior R row kind = .ok prior) :
    (∃ a p, row = some a ∧ a.kind = kind ∧ loadConfig R a = .ok p ∧ prior = some p) ∨
      ((∀ a ∈ row, a.kind ≠ kind) ∧ prior = none) := by
  have h := Except.mapError_eq_ok.mp h
  cases row with
  | none => exact .inr ⟨nofun, (Except.pure_eq_ok.mp h).symm⟩
  | some a =>
    by_cases hk : a.kind = kind
    · rw [Option.filter_some, if_pos (decide_eq_true hk)] at h
      obtain ⟨p, hp, h⟩ := Except.bind_eq_ok.mp h
      exact .inl ⟨a, p, rfl, hk, hp, (Except.pure_eq_ok.mp h).symm⟩
    · rw [Option.filter_some, if_neg (by simpa using hk)] at h
      refine .inr ⟨fun b hb => ?_, (Except.pure_eq_ok.mp h).symm⟩
      rwa [← Option.some.inj hb]

/-! ## Submissions -/

variable (D plugins) in
/-- The submission has a masked header that no config of the kind, stored in a row that `Prior`
holds of, can restore. -/
def Unrestorable (Prior : WatchAction → Prop) (spec : WatchActionInput) : Prop :=
  ∃ s, parseConfig (actionRegistry D plugins) spec.kind spec.config = .ok (.webhook s) ∧
    ∃ h ∈ s.headers, h.2 = redacted ∧ ∀ a p, Prior a → a.kind = spec.kind →
      loadConfig (actionRegistry D plugins) a = .ok (.webhook p) → h.1 ∉ p.headers.map (·.1)

/-- An unrestorable submission that is spelled out is not valid. -/
theorem Unrestorable.validate_error {Prior : WatchAction → Prop} {spec : WatchActionInput}
    {c : ActionConfig D.unicode P} (h : Unrestorable D plugins Prior spec)
    (hs : Spelled D plugins spec.kind spec.config) :
    validateConfig (actionRegistry D plugins) spec.kind spec.config ≠ .ok c := by
  obtain ⟨s, hparse, h, hm, hv, -⟩ := h
  intro hc
  obtain rfl := Except.ok.inj (hparse.symm.trans (parseConfig_of_validateConfig hc))
  exact hs _ hc ⟨h, hm, hv⟩

/-- **An unrestorable submission does not merge** with the config of its prior row. -/
theorem Unrestorable.merge_error {Prior : WatchAction → Prop} {spec : WatchActionInput}
    {a : WatchAction} {p m : ActionConfig D.unicode P} (h : Unrestorable D plugins Prior spec)
    (ha : Prior a) (hk : a.kind = spec.kind)
    (hp : loadConfig (actionRegistry D plugins) a = .ok p) :
    mergeConfig (actionRegistry D plugins) spec.kind spec.config (some p) ≠ .ok m := by
  obtain ⟨s, hs, h, hm, hv, hnone⟩ := h
  intro hmerge
  obtain ⟨s', hs', hmerge⟩ := Except.bind_eq_ok.mp hmerge
  obtain rfl := Except.ok.inj (hs.symm.trans hs')
  obtain ⟨m', hm', -⟩ := Except.bind_eq_ok.mp hmerge
  have hkind : (actionRegistry D plugins).kind p = "webhook" := by
    rw [kind_parseConfig hp, hk, ← kind_parseConfig hs]
    rfl
  obtain ⟨w, rfl⟩ := exists_webhook hkind
  obtain ⟨w', hw', -⟩ := Except.map_eq_ok.mp hm'
  obtain ⟨hh, -⟩ := WebhookConfig.mergePreserving_eq_ok.mp hw'
  obtain ⟨h', -, hm₀⟩ := Except.forall₂_mem_right (Except.mapM_eq_ok.mp hh).flip hm
  rcases mergeHeader_eq_ok hm₀ with ⟨hne, -⟩ | ⟨-, hname, q, hq, hmem⟩
  · exact hne hv
  · obtain rfl := Option.some.inj hq
    exact hnone a w ha hk hp (hname ▸ List.mem_map_of_mem hmem)

/-! ## Calls -/

variable (D plugins)

/-- `add` and a change of kind are passed their header values spelled out. -/
def ChainCall.Spelled : ChainCall → Prop
  | .add _ spec _ => OpenMagpie.Spelled D plugins spec.kind spec.config
  | .setConfig action spec =>
    action.kind ≠ spec.kind → OpenMagpie.Spelled D plugins spec.kind spec.config
  | .replaceChain _ _ | .remove _ => True

/-- One of the call's submissions has a masked header that its own action cannot restore. -/
def ChainCall.Unrestorable (account path : Id) (t : List WatchAction) : ChainCall → Prop
  | .replaceChain _ specs => ∃ spec ∈ specs, OpenMagpie.Unrestorable D plugins
      (fun a => a ∈ listForPath account path t ∧ spec.id = some a.id) spec
  | .add _ spec _ => OpenMagpie.Unrestorable D plugins (fun _ => False) spec
  | .setConfig action spec => OpenMagpie.Unrestorable D plugins (fun a => a = action) spec
  | .remove _ => False

/-- A row that is passed to a call has been loaded from the table. -/
def ChainCall.Loaded (t : List WatchAction) : ChainCall → Prop
  | .setConfig action _ | .remove action => action ∈ t
  | .replaceChain _ _ | .add _ _ _ => True

/-- The action tables that calls on any paths lead to, when they are all `Allowed`. A new watch's
chain is a `replace_chain` on a path without rows. -/
inductive Mutated {C : Type} (R : Registry C) (Allowed : ChainCall → Prop) : List WatchAction → Prop
  | nil : Mutated R Allowed []
  | call {t : List WatchAction} (h : Mutated R Allowed t) {account path : Id} {c : ChainCall}
      (hc : c.Ok account path t) (hl : c.Loaded t) (ha : Allowed c) :
      Mutated R Allowed (c.apply R account path t)

variable {D plugins} {account path : Id} {t : List WatchAction}

/-- Without a row of the kind, the guard refuses what is masked. -/
theorem unmasked_of_refuse {row : Option WatchAction} {spec : WatchActionInput}
    (h : refuseMasked (actionRegistry D plugins) row spec = .ok ()) (hk : ∀ a ∈ row, a.kind ≠ spec.kind) :
    Unmasked D plugins spec.kind spec.config := by
  intro c hc hmask
  obtain ⟨w, rfl⟩ := exists_webhook (kind_of_hasMaskedHeader plugins hmask)
  have hnone : (row.filter fun a => decide (a.kind = spec.kind)) = none := by
    rw [Option.filter_eq_none_iff]
    exact fun a ha => by simpa using hk a ha
  obtain ⟨hd, hmem, hv⟩ := hmask
  have hw : w.hasMaskedSecret = true := by
    rw [WebhookConfig.hasMaskedSecret, Bool.or_eq_true, List.any_eq_true]
    exact .inr ⟨hd, hmem, decide_eq_true hv⟩
  have hsub : submittedHasMaskedSecret (actionRegistry D plugins) spec = true := by
    rw [submittedHasMaskedSecret, hc]
    exact hw
  rw [refuseMasked, hnone, hsub] at h
  cases h

/-- What one submission of `replace_chain` is checked for. -/
theorem reconcileOne_unmasked {mint : Id → Id} {existing : List WatchAction}
    {acc acc' : Reconcile} {spec : WatchActionInput}
    (hrows : ∀ a ∈ existing, Unmasked D plugins a.kind a.config)
    (h : reconcileOne (actionRegistry D plugins) mint account path existing acc spec = .ok acc') :
    ¬ Unrestorable D plugins (fun a => a ∈ existing ∧ spec.id = some a.id) spec ∧
      ∃ blob, Unmasked D plugins spec.kind blob ∧
        ((∃ id, acc'.updated = acc.updated ++ [(id, spec.kind, blob)] ∧
            acc'.created = acc.created) ∨
          (∃ id, acc'.updated = acc.updated ∧ acc'.created = acc.created ++
            [⟨id, account, path, spec.kind, blob, acc.tempRank⟩])) := by
  obtain ⟨row, prior, merged, hrefuse, hprior, hm, hacc⟩ := reconcileOne_eq_ok h
  have hrow : ∀ a, row = some a → a ∈ existing ∧ spec.id = some a.id := by
    rintro a rfl
    obtain ⟨b, hb, he, hid, -⟩ | ⟨he, -⟩ := hacc
    · obtain rfl := Option.some.inj he
      exact ⟨hb, hid⟩
    · cases he
  have hclean : ¬ HasMaskedHeader merged := by
    rcases loadPrior_eq_ok hprior with ⟨a, p, ha, -, hload, rfl⟩ | ⟨hk, rfl⟩
    · exact mergeConfig_unmasked hm (hrows a (hrow a ha).1 _ hload)
    · exact (unmasked_of_refuse hrefuse hk).spelled _ (validateConfig_of_mergeConfig hm)
  have hstored := unmasked_modelDump plugins hclean
  rw [kind_mergeConfig hm] at hstored
  refine ⟨fun hu => ?_, _, hstored, ?_⟩
  · rcases loadPrior_eq_ok hprior with ⟨a, p, ha, hk, hload, rfl⟩ | ⟨hk, -⟩
    · exact hu.merge_error (hrow a ha) hk hload hm
    · obtain ⟨s, hs, hd, hmem, hv, -⟩ := hu
      exact unmasked_of_refuse hrefuse hk _ hs ⟨hd, hmem, hv⟩
  · rcases hacc with ⟨a, -, -, -, -, rfl⟩ | ⟨-, -, rfl⟩
    · exact .inl ⟨a.id, rfl, rfl⟩
    · exact .inr ⟨mint acc.tempRank, rfl, rfl⟩

variable (D plugins) in
/-- What a transaction writes is clean. -/
structure ChainWrite.Unmasked (x : ChainWrite) : Prop where
  updated : ∀ u ∈ x.updated, OpenMagpie.Unmasked D plugins u.2.1 u.2.2
  created : ∀ a ∈ x.created, OpenMagpie.Unmasked D plugins a.kind a.config

theorem replaceChain_unmasked {mint : Id → Id} {existing : List WatchAction}
    {specs : List WatchActionInput} {x : ChainWrite}
    (hrows : ∀ a ∈ existing, Unmasked D plugins a.kind a.config)
    (hx : replaceChain (actionRegistry D plugins) mint account path existing specs = .ok x) :
    x.Unmasked D plugins ∧ ∀ spec ∈ specs,
      ¬ Unrestorable D plugins (fun a => a ∈ existing ∧ spec.id = some a.id) spec := by
  obtain ⟨acc, hacc, hx⟩ := Except.bind_eq_ok.mp hx
  obtain ⟨_, -, hx⟩ := Except.bind_eq_ok.mp hx
  obtain rfl := Except.pure_eq_ok.mp hx
  have h := Except.prefix_of_foldlM_eq_ok (P := fun specs (acc : Reconcile) =>
    ((∀ u ∈ acc.updated, Unmasked D plugins u.2.1 u.2.2) ∧
      ∀ a ∈ acc.created, Unmasked D plugins a.kind a.config) ∧ ∀ spec ∈ specs,
        ¬ Unrestorable D plugins (fun a => a ∈ existing ∧ spec.id = some a.id) spec)
    (fun specs acc spec acc' hi hstep => ?_) ⟨⟨by simp, by simp⟩, fun _ hs => absurd hs List.not_mem_nil⟩ hacc
  · exact ⟨⟨h.1.1, h.1.2⟩, h.2⟩
  · obtain ⟨hspec, blob, hblob, hcase⟩ := reconcileOne_unmasked hrows hstep
    have hall : ∀ s ∈ specs ++ [spec],
        ¬ Unrestorable D plugins (fun a => a ∈ existing ∧ s.id = some a.id) s := by
      intro s hs
      rcases List.mem_append.mp hs with hs | hs
      · exact hi.2 s hs
      · rwa [List.mem_singleton.mp hs]
    rcases hcase with ⟨id, hu, hc⟩ | ⟨id, hu, hc⟩
    · refine ⟨⟨fun u hm => ?_, hc ▸ hi.1.2⟩, hall⟩
      rw [hu] at hm
      rcases List.mem_append.mp hm with hm | hm
      · exact hi.1.1 u hm
      · rwa [List.mem_singleton.mp hm]
    · refine ⟨⟨hu ▸ hi.1.1, fun a hm => ?_⟩, hall⟩
      rw [hc] at hm
      rcases List.mem_append.mp hm with hm | hm
      · exact hi.1.2 a hm
      · rwa [List.mem_singleton.mp hm]

theorem setConfig_unmasked {action : WatchAction} {spec : WatchActionInput} {x : ChainWrite}
    (hrow : Unmasked D plugins action.kind action.config)
    (hspec : action.kind ≠ spec.kind → Spelled D plugins spec.kind spec.config)
    (hx : setConfig (actionRegistry D plugins) action spec = .ok x) : x.Unmasked D plugins ∧
      ¬ Unrestorable D plugins (fun a => a = action) spec := by
  obtain ⟨prior, hprior, hx⟩ := Except.bind_eq_ok.mp hx
  obtain ⟨merged, hm, hx⟩ := Except.bind_eq_ok.mp hx
  obtain rfl := Except.pure_eq_ok.mp hx
  have hm := Except.mapError_eq_ok.mp hm
  have hclean : ¬ HasMaskedHeader merged ∧ ¬ Unrestorable D plugins (fun a => a = action) spec := by
    rcases loadPrior_eq_ok hprior with ⟨a, p, ha, hk, hload, rfl⟩ | ⟨hk, rfl⟩
    · obtain rfl := Option.some.inj ha
      exact ⟨mergeConfig_unmasked hm (hrow p hload), fun hu => hu.merge_error rfl hk hload hm⟩
    · have hs := hspec (hk action rfl)
      have hv := validateConfig_of_mergeConfig hm
      exact ⟨hs _ hv, fun hu => hu.validate_error hs hv⟩
  refine ⟨⟨fun u hu => ?_, nofun⟩, hclean.2⟩
  rw [List.mem_singleton.mp hu, ← kind_mergeConfig hm]
  exact unmasked_modelDump _ hclean.1

theorem add_unmasked {newId : Id} {spec : WatchActionInput} {rank : Option ℤ} {x : ChainWrite}
    (hspec : Spelled D plugins spec.kind spec.config)
    (hx : add (actionRegistry D plugins) newId account path spec rank t = .ok x) :
    x.Unmasked D plugins ∧ ¬ Unrestorable D plugins (fun _ => False) spec := by
  obtain ⟨c, hc, hx⟩ := Except.bind_eq_ok.mp hx
  obtain rfl := Except.pure_eq_ok.mp hx
  have hc := Except.mapError_eq_ok.mp hc
  refine ⟨⟨nofun, fun a ha => ?_⟩, fun hu => hu.validate_error hspec hc⟩
  rw [List.mem_singleton.mp ha, ← kind_validateConfig hc]
  exact unmasked_modelDump _ (hspec c hc)

/-- **One call on a clean table.** -/
theorem call_unmasked {c : ChainCall} {x : ChainWrite}
    (ht : ∀ a ∈ t, Unmasked D plugins a.kind a.config) (hl : c.Loaded t) (ha : c.Spelled D plugins)
    (hx : c.run (actionRegistry D plugins) account path t = .ok x) :
    x.Unmasked D plugins ∧ ¬ c.Unrestorable D plugins account path t := by
  cases c with
  | replaceChain mint specs =>
    obtain ⟨hw, hall⟩ := replaceChain_unmasked (fun a hm => ht a (mem_listForPath.mp hm).1) hx
    exact ⟨hw, fun ⟨spec, hs, hu⟩ => hall spec hs hu⟩
  | add newId spec rank => exact add_unmasked ha hx
  | remove action =>
    obtain rfl := Except.ok.inj hx
    exact ⟨⟨nofun, nofun⟩, id⟩
  | setConfig action spec => exact setConfig_unmasked (ht action hl) ha hx

theorem Mutated.unmasked (h : Mutated (actionRegistry D plugins) (ChainCall.Spelled D plugins) t) :
    ∀ a ∈ t, Unmasked D plugins a.kind a.config := by
  induction h with
  | nil => exact nofun
  | @call t _ account path c _ hl ha ih =>
    rw [ChainCall.apply]
    split
    · rename_i x hx
      obtain ⟨⟨hu, hc⟩, -⟩ := call_unmasked ih hl ha hx
      exact ChainWrite.forall_actions ih hu hc
    · exact ih

/-- **No stored header is the sentinel**, and what cannot be restored is refused, as long as `add`
and changes of kind are passed their headers spelled out. -/
theorem headers_unmasked
    (h : Mutated (actionRegistry D plugins) (ChainCall.Spelled D plugins) t) :
    (∀ a ∈ t, ∀ w, loadConfig (actionRegistry D plugins) a = .ok (.webhook w) →
      ∀ hd ∈ w.headers, hd.2 ≠ redacted) ∧
    ∀ (account path : Id) (c : ChainCall), c.Loaded t → c.Spelled D plugins →
      c.Unrestorable D plugins account path t →
        (∃ e, c.run (actionRegistry D plugins) account path t = .error e) ∧
          c.apply (actionRegistry D plugins) account path t = t := by
  refine ⟨fun a ha w hw hd hm hv => h.unmasked a ha _ hw ⟨hd, hm, hv⟩, ?_⟩
  intro account path c hl ha hu
  cases hx : c.run (actionRegistry D plugins) account path t with
  | ok x => exact absurd hu (call_unmasked h.unmasked hl ha hx).2
  | error e =>
    refine ⟨⟨e, rfl⟩, ?_⟩
    rw [ChainCall.apply, hx]

/-! ## A sentinel that is stored -/

/-- The submission of `hook token`. -/
def hookSpec (token : String) : WatchActionInput := { kind := "webhook", config := (hook token).modelDump }

/-- A `log` action. -/
def logSpec : WatchActionInput := { kind := "log", config := LogConfig.modelDump {} }

def logRow : WatchAction := ⟨7, 1, 2, "log", LogConfig.modelDump {}, 0⟩

/-- The masked header of `hookSpec` has nothing to come from without a webhook row. -/
theorem hookSpec_unrestorable {Prior : WatchAction → Prop}
    (h : ∀ a, Prior a → a.kind ≠ "webhook") :
    Unrestorable sampleDeployment noPlugins Prior (hookSpec "***") :=
  ⟨hook "***", rfl, _, List.mem_singleton_self _, rfl, fun a _ ha hk => absurd hk (h a ha)⟩

/-- **`add` stores the sentinel, and so does a change of kind.** -/
theorem header_masked :
    (Mutated sampleActions (fun _ => True) [] ∧
      (ChainCall.add 7 (hookSpec "***") none).Unrestorable sampleDeployment noPlugins 1 2 [] ∧
      (ChainCall.add 7 (hookSpec "***") none).apply sampleActions 1 2 [] = [hookRow "***"]) ∧
    (Mutated sampleActions (fun _ => True) [logRow] ∧
      (ChainCall.setConfig logRow (hookSpec "***")).Unrestorable sampleDeployment noPlugins 1 2
        [logRow] ∧
      (ChainCall.setConfig logRow (hookSpec "***")).apply sampleActions 1 2 [logRow] =
        [hookRow "***"]) ∧
    ¬ ∀ w, loadConfig sampleActions (hookRow "***") = .ok (.webhook w) →
      ∀ hd ∈ w.headers, hd.2 ≠ redacted := by
  refine ⟨⟨.nil, hookSpec_unrestorable nofun, rfl⟩, ⟨?_, hookSpec_unrestorable ?_, rfl⟩, fun h => ?_⟩
  · have hok : (ChainCall.add 7 logSpec none).Ok 1 2 [] := by simp [ChainCall.Ok]
    exact .call .nil hok trivial trivial
  · rintro _ rfl
    decide
  · exact h (hook "***") rfl _ (List.mem_singleton_self _) rfl

/-- A webhook added with its token spelled out. -/
theorem spelled_hook : Mutated sampleActions (ChainCall.Spelled sampleDeployment noPlugins)
    [hookRow "token"] := by
  have hok : (ChainCall.add 7 (hookSpec "token") none).Ok 1 2 [] := by simp [ChainCall.Ok]
  have hclean : ¬ HasMaskedHeader (D := sampleDeployment) (P := Empty) (.webhook (hook "token")) := by
    rintro ⟨hd, hm, hv⟩
    rw [List.mem_singleton.mp hm] at hv
    exact absurd hv (by decide)
  exact .call .nil hok trivial (unmasked_modelDump (D := sampleDeployment) noPlugins hclean).spelled

/-- The masked form of that webhook, submitted as a new action, is refused. -/
theorem headers_unmasked_sample :
    (∀ w, loadConfig sampleActions (hookRow "token") = .ok (.webhook w) →
      ∀ hd ∈ w.headers, hd.2 ≠ redacted) ∧
    (ChainCall.replaceChain (· + 8) [hookSpec "***"]).apply sampleActions 1 2 [hookRow "token"] =
      [hookRow "token"] := by
  have h := headers_unmasked spelled_hook
  refine ⟨h.1 (hookRow "token") (List.mem_singleton_self _),
    (h.2 1 2 (.replaceChain (· + 8) [hookSpec "***"]) trivial trivial ?_).2⟩
  exact ⟨_, List.mem_singleton_self _, hookSpec_unrestorable fun a ha => nomatch ha.2⟩

/-! ## Where restored secrets go -/

/-- Scheme, host and port of a URL. -/
def destination (U : Url.Unicode) (url : String) :
    Option (List Char × Option (List Char) × Option (Option ℕ)) :=
  (Url.urlsplit U url.toList).map fun parts => (parts.scheme, parts.hostname U, parts.port)

/-- A header of a merge: as submitted in the clear, or the prior config's of the same name. -/
def HeaderFrom {U : Url.Unicode} (prior : WebhookConfig U) (submitted merged : String × String) :
    Prop :=
  merged.1 = submitted.1 ∧ (submitted.2 ≠ redacted → merged = submitted) ∧
    (submitted.2 = redacted → merged ∈ prior.headers)

/-- **Where restored secrets go.** A URL is restored as a whole, so it keeps its destination; a
header is restored by its name, wherever the submitted URL points. -/
theorem restored_secrets {data : Json} {prior : WebhookConfig D.unicode}
    {m : ActionConfig D.unicode P}
    (h : mergeConfig (actionRegistry D plugins) "webhook" data (some (.webhook prior)) = .ok m) :
    ∃ s w, parseConfig (actionRegistry D plugins) "webhook" data = .ok (.webhook s) ∧
      m = .webhook w ∧ List.Forall₂ (HeaderFrom prior) s.headers w.headers ∧
      (s.url = redactUrl D.unicode prior.url → w.url = prior.url) ∧
      (s.url ≠ redactUrl D.unicode prior.url → w.url = s.url) ∧
      (destination D.unicode w.url = destination D.unicode prior.url ↔
        s.url = redactUrl D.unicode prior.url ∨
          destination D.unicode s.url = destination D.unicode prior.url) := by
  obtain ⟨c, hparse, h⟩ := Except.bind_eq_ok.mp h
  obtain ⟨m', hm, h⟩ := Except.bind_eq_ok.mp h
  obtain rfl := (actionRegistry D plugins).enforceActionPolicy_eq h
  have hkind : (actionRegistry D plugins).kind c = "webhook" := kind_parseConfig hparse
  obtain ⟨s, rfl⟩ := exists_webhook hkind
  obtain ⟨w, hw, rfl⟩ := Except.map_eq_ok.mp hm
  obtain ⟨hh, hu, -⟩ := WebhookConfig.mergePreserving_eq_ok.mp hw
  have hurl : w.url = if s.url = redactUrl D.unicode prior.url then prior.url else s.url := hu
  refine ⟨s, w, hparse, rfl, (Except.mapM_eq_ok.mp hh).imp fun sub mer hsm => ?_,
    fun he => by rw [hurl, if_pos he], fun hne => by rw [hurl, if_neg hne], ?_⟩
  · rcases mergeHeader_eq_ok hsm with ⟨hne, rfl⟩ | ⟨hr, hname, p, hp, hmem⟩
    · exact ⟨rfl, fun _ => rfl, fun he => absurd he hne⟩
    · rw [← Option.some.inj hp] at hmem
      exact ⟨hname, fun hne => absurd hr hne, fun _ => hmem⟩
  · rw [hurl]
    split_ifs with he
    · exact ⟨fun _ => .inl he, fun _ => rfl⟩
    · exact ⟨.inr, fun hor => hor.resolve_left he⟩

/-- A webhook elsewhere, with its token left masked. -/
def elsewhere : WebhookConfig asciiUnicode where
  url := "https://elsewhere.test/x"
  headers := [("Authorization", "***")]
  url_valid := by decide

/-- **A token follows the editor's URL.** -/
theorem token_redirected : ∃ w : WebhookConfig asciiUnicode,
    mergeConfig sampleActions "webhook" elsewhere.modelDump (some (.webhook (hook "token"))) =
        .ok (.webhook w) ∧
      ("Authorization", "***") ∈ elsewhere.headers ∧ ("Authorization", "token") ∈ w.headers ∧
      destination asciiUnicode w.url ≠ destination asciiUnicode (hook "token").url :=
  ⟨{ elsewhere with headers := [("Authorization", "token")]
                    headers_nodup := List.nodup_singleton _ },
    rfl, List.mem_singleton_self _, List.mem_singleton_self _, by decide⟩

/-- The masked form of a webhook, submitted back. -/
theorem restored_secrets_sample : ∃ s w : WebhookConfig asciiUnicode,
    parseConfig sampleActions "webhook" (hook "token").redactedDump = .ok (.webhook s) ∧
      (ActionConfig.webhook (hook "token") : ActionConfig asciiUnicode Empty) = .webhook w ∧
      (s.url = "https://hook.test/***" → w.url = "https://hook.test/x") := by
  have hmerge : mergeConfig sampleActions "webhook" (hook "token").redactedDump
      (some (.webhook (hook "token"))) = .ok (.webhook (hook "token")) := rfl
  obtain ⟨s, w, hs, hw, -, hurl, -⟩ := restored_secrets (D := sampleDeployment) hmerge
  exact ⟨s, w, hs, hw, hurl⟩

end OpenMagpie
