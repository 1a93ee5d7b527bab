import Mathlib.Data.List.DropRight
import Mathlib.Algebra.Order.Ring.Rat
import OpenMagpie.Watches.Webhook

/-!
# The action kinds

The config classes of a deployment: the four built-in kinds and the kinds that plugins register.

* `SemanticFilterConfig`, `ExtractConfig`: the engine-backed kinds.
* `Deployment`: how configs are read, and the settings and the engines that the policy asks.
* `ActionConfig`, `actionRegistry`: a config of any kind, and the registry of the deployment.
* `Redaction`: what a config class promises about its masked form; **`actionRedaction`**: every
  built-in class keeps the promise.
-/

set_option autoImplicit false

namespace OpenMagpie

open LogConfig (field)

/-! ## Engine-backed kinds -/

/-- Which engine and model an action uses; an empty kind is the server's default. -/
structure EngineSpec where
  kind : String := ""
  model : String := ""

/-- The config that the engine-backed kinds share. -/
structure EngineActionConfigBase where
  engine : EngineSpec := {}
  fetchExternalContent : Bool := true

namespace EngineActionConfigBase

variable (V : LaxMode)

def readEngine : Json → Option EngineSpec
  | .obj kvs => do
    let kind ← field "kind" "" V.str (.obj kvs)
    let model ← field "model" "" V.str (.obj kvs)
    return { kind, model }
  | _ => none

/-- The two shared fields of a submitted object. -/
def read (d : Json) : Option EngineActionConfigBase := do
  let engine ← field "engine" {} (readEngine V) d
  let fetch ← field "fetch_external_content" true V.bool d
  return { engine := engine, fetchExternalContent := fetch }

/-- The two shared fields of a dump. -/
def dump (b : EngineActionConfigBase) : List (String × Json) :=
  [("engine", .obj [("kind", .str b.engine.kind), ("model", .str b.engine.model)]),
    ("fetch_external_content", .bool b.fetchExternalContent)]

/-- The shared fields are read back from any object that begins with them. -/
theorem read_dump (b : EngineActionConfigBase) (kvs : List (String × Json)) :
    read V (.obj (b.dump ++ kvs)) = some b := by
  simp [read, dump, field, Json.get?, readEngine, V.str_eq, V.bool_eq]

end EngineActionConfigBase

/-- Config of a `semantic_filter` action. -/
structure SemanticFilterConfig extends EngineActionConfigBase where
  instructions : String
  threshold : ℚ := 4 / 5
  threshold_pos : 0 < threshold := by decide
  threshold_le : threshold ≤ 1 := by decide

namespace SemanticFilterConfig

variable (V : LaxMode)

/-- `SemanticFilterConfig.model_validate`. -/
def modelValidate (d : Json) : Except ConfigError SemanticFilterConfig :=
  match EngineActionConfigBase.read V d, d.get? "instructions" >>= V.str,
    field "threshold" (4 / 5) V.float d with
  | some base, some instructions, some threshold =>
    if h : 0 < threshold ∧ threshold ≤ 1 then
      .ok { toEngineActionConfigBase := base, instructions := instructions, threshold := threshold,
            threshold_pos := h.1, threshold_le := h.2 }
    else .error (.validation "threshold must be greater than 0 and at most 1")
  | _, _, _ => .error (.validation "invalid semantic_filter config")

/-- `SemanticFilterConfig.model_dump`. -/
def modelDump (c : SemanticFilterConfig) : Json :=
  .obj (c.dump ++ [("instructions", .str c.instructions), ("threshold", .float c.threshold)])

/-- A dumped config loads as itself. -/
theorem modelValidate_modelDump (c : SemanticFilterConfig) :
    modelValidate V c.modelDump = .ok c := by
  have hi : c.modelDump.get? "instructions" >>= V.str = some c.instructions := V.str_eq _
  have ht : field "threshold" (4 / 5) V.float c.modelDump = some c.threshold := V.float_eq _
  have hb : EngineActionConfigBase.read V c.modelDump = some c.toEngineActionConfigBase :=
    EngineActionConfigBase.read_dump V _ _
  rw [modelValidate, hb, hi, ht]
  exact dif_pos ⟨c.threshold_pos, c.threshold_le⟩

end SemanticFilterConfig

/-- `str.isspace` of a character, as `str.strip` tests it. -/
def isSpace (c : Char) : Bool :=
  let n := c.toNat
  (9 ≤ n && n ≤ 13) || (28 ≤ n && n ≤ 32) || n = 0x85 || n = 0xa0 || n = 0x1680 ||
    (0x2000 ≤ n && n ≤ 0x200a) || n = 0x2028 || n = 0x2029 || n = 0x202f || n = 0x205f || n = 0x3000

/-- `str.strip`. -/
def strip (s : List Char) : List Char := (s.dropWhile isSpace).rdropWhile isSpace

theorem strip_strip (s : List Char) : strip (strip s) = strip s := by
  have hl : (strip s).dropWhile isSpace = strip s := by
    rw [List.dropWhile_eq_self_iff]
    intro hpos
    have hpre : strip s <+: s.dropWhile isSpace := List.rdropWhile_prefix _ _
    have hlt : 0 < (s.dropWhile isSpace).length := Nat.lt_of_lt_of_le hpos hpre.length_le
    rw [hpre.getElem hpos]
    exact List.dropWhile_get_zero_not isSpace s hlt
  rw [strip, hl]
  exact List.rdropWhile_idempotent _ _

/-- One field to pull out of an item. -/
structure ExtractField where
  name : String
  description : List Char
  name_valid : name.toList ≠ [] ∧ name.length ≤ 64 ∧
    name.toList.all (fun c => c.isAlphanum || c = '_' || c = '-') := by decide
  description_valid : strip description = description ∧ 1 ≤ description.length ∧
    description.length ≤ 256 := by decide

/-- No name has a NUL character. -/
theorem ExtractField.name_no_nul (f : ExtractField) : Json.textHasNul f.name = false := by
  refine List.any_eq_false.mpr fun c hc hnul => ?_
  have hvalid := List.all_eq_true.mp f.name_valid.2.2 c hc
  rw [eq_of_beq hnul] at hvalid
  revert hvalid
  decide

/-- Config of an `extract` action. -/
structure ExtractConfig extends EngineActionConfigBase where
  fields : List ExtractField
  instructions : String := ""
  fields_valid : fields ≠ [] ∧ fields.length ≤ 64 ∧ (fields.map (·.name)).Nodup
  instructions_le : instructions.length ≤ 2048 := by decide

namespace ExtractConfig

variable (V : LaxMode)

/-- `ExtractField.model_validate`: the description is stripped before its length is checked. -/
def readField (d : Json) : Option ExtractField :=
  match d.get? "name" >>= V.str, d.get? "description" >>= V.str with
  | some name, some description =>
    if h : (name.toList ≠ [] ∧ name.length ≤ 64 ∧
        name.toList.all (fun c => c.isAlphanum || c = '_' || c = '-')) ∧
        1 ≤ (strip description.toList).length ∧ (strip description.toList).length ≤ 256 then
      some { name := name, description := strip description.toList, name_valid := h.1,
             description_valid := ⟨strip_strip _, h.2⟩ }
    else none
  | _, _ => none

def readFields : Json → Option (List ExtractField)
  | .arr xs => xs.mapM (readField V)
  | _ => none

/-- `ExtractConfig.model_validate`. -/
def modelValidate (d : Json) : Except ConfigError ExtractConfig :=
  match EngineActionConfigBase.read V d, d.get? "fields" >>= readFields V,
    field "instructions" "" V.str d with
  | some base, some fields, some instructions =>
    if h : (fields ≠ [] ∧ fields.length ≤ 64 ∧ (fields.map (·.name)).Nodup) ∧
        instructions.length ≤ 2048 then
      .ok { toEngineActionConfigBase := base, fields := fields, instructions := instructions,
            fields_valid := h.1, instructions_le := h.2 }
    else .error (.validation "extract requires at least one field, with unique names")
  | _, _, _ => .error (.validation "invalid extract config")

def dumpField (f : ExtractField) : Json :=
  .obj [("name", .str f.name), ("description", .str (String.ofList f.description))]

/-- `ExtractConfig.model_dump`. -/
def modelDump (c : ExtractConfig) : Json :=
  .obj (c.dump ++ [("fields", .arr (c.fields.map dumpField)), ("instructions", .str c.instructions)])

theorem readField_dumpField (f : ExtractField) : readField V (dumpField f) = some f := by
  obtain ⟨name, description, hn, hd⟩ := f
  have hs : strip (String.ofList description).toList = description := by
    rw [String.toList_ofList, hd.1]
  have hname : (dumpField ⟨name, description, hn, hd⟩).get? "name" >>= V.str = some name := V.str_eq _
  have hdesc : (dumpField ⟨name, description, hn, hd⟩).get? "description" >>= V.str =
      some (String.ofList description) := V.str_eq _
  rw [readField, hname, hdesc]
  simp only [hs]
  exact dif_pos ⟨hn, hd.2⟩

theorem readFields_map (fs : List ExtractField) :
    readFields V (.arr (fs.map dumpField)) = some fs := by
  rw [readFields]
  induction fs with
  | nil => rfl
  | cons f fs ih =>
    rw [List.map_cons, List.mapM_cons, readField_dumpField, ih]
    rfl

/-- A dumped config loads as itself. -/
theorem modelValidate_modelDump (c : ExtractConfig) : modelValidate V c.modelDump = .ok c := by
  have hf : c.modelDump.get? "fields" = some (.arr (c.fields.map dumpField)) := rfl
  have hi : field "instructions" "" V.str c.modelDump = some c.instructions := V.str_eq _
  have hb : EngineActionConfigBase.read V c.modelDump = some c.toEngineActionConfigBase :=
    EngineActionConfigBase.read_dump V _ _
  rw [modelValidate, hb, hf, hi, Option.bind_eq_bind, Option.bind_some, readFields_map]
  exact dif_pos ⟨c.fields_valid, c.instructions_le⟩

end ExtractConfig

/-! ## Policy -/

/-- How the server reads configs, and what its policy depends on. `blockedAddress` names the address of
an IP literal in a blocked range. -/
structure Deployment where
  lax : LaxMode
  unicode : Url.Unicode
  digestMin : ℕ
  digestMax : ℕ
  requireHttps : Bool
  blockPrivateIps : Bool
  blockedAddress : List Char → Option String
  engineKinds : List String
  defaultEngine : String

variable (D : Deployment)

/-- `_enforce_digest_interval`. -/
def enforceDigestInterval (b : DeliveryConfigBase) : Except ConfigError Unit :=
  if b.delivery = .digest → D.digestMin ≤ b.digestIntervalSeconds ∧
      b.digestIntervalSeconds ≤ D.digestMax then .ok ()
  else .error (.policy s!"digest_interval_seconds must be between {D.digestMin} and {D.digestMax} (got {b.digestIntervalSeconds})")

/-- `destination_block_reason` at write time: no name is resolved. -/
def destinationBlockReason (url : String) : Option String :=
  match Url.urlsplit D.unicode url.toList with
  | none => some "malformed url"
  | some parts =>
    if D.requireHttps ∧ parts.scheme ≠ "https".toList then some "scheme must be https"
    else if D.blockPrivateIps then
      match parts.hostname D.unicode with
      | some (c :: host) =>
        (D.blockedAddress (c :: host)).map fun a => s!"host is a blocked address ({a})"
      | _ => none
    else none

/-- `_enforce_webhook_url_safety`. -/
def enforceWebhookUrlSafety (url : String) : Except ConfigError Unit :=
  match destinationBlockReason D url with
  | some reason => .error (.policy s!"webhook url rejected: {reason}")
  | none => .ok ()

/-- `_enforce_engine_registered`. -/
def enforceEngineRegistered (b : EngineActionConfigBase) : Except ConfigError Unit :=
  if b.engine.kind = "" ∨ b.engine.kind ∈ D.engineKinds then .ok ()
  else .error (.policy s!"unknown engine kind '{b.engine.kind}'; registered: {D.engineKinds} (default is '{D.defaultEngine}'; leave engine.kind empty to use it)")

/-! ## The registry of a deployment -/

/-- `BUILTIN_ACTION_KINDS`. -/
def builtinKinds : List String := ["semantic_filter", "extract", "webhook", "log"]

/-- The config classes that plugins register; a built-in kind is refused. -/
structure PluginRegistry (P : Type) extends Registry P where
  kind_not_builtin : ∀ c, kind c ∉ builtinKinds

/-- A typed config of any kind. -/
inductive ActionConfig (U : Url.Unicode) (P : Type)
  | semanticFilter (c : SemanticFilterConfig)
  | extract (c : ExtractConfig)
  | webhook (c : WebhookConfig U)
  | log (c : LogConfig)
  | plugin (c : P)

variable {P : Type} (plugins : PluginRegistry P)

namespace ActionConfig

/-- The config class of a kind. -/
def modelValidate (kind : String) : Option (Json → Except ConfigError (ActionConfig D.unicode P)) :=
  if kind = "semantic_filter" then
    some fun d => (SemanticFilterConfig.modelValidate D.lax d).map .semanticFilter
  else if kind = "extract" then some fun d => (ExtractConfig.modelValidate D.lax d).map .extract
  else if kind = "webhook" then some fun d => (WebhookConfig.modelValidate D.lax d).map .webhook
  else if kind = "log" then some fun d => (LogConfig.modelValidate D.lax d).map .log
  else (plugins.modelValidate kind).map fun f d => (f d).map .plugin

/-- `CONFIG_KIND`. -/
def kind : ActionConfig D.unicode P → String
  | .semanticFilter _ => "semantic_filter"
  | .extract _ => "extract"
  | .webhook _ => "webhook"
  | .log _ => "log"
  | .plugin c => plugins.kind c

/-- The delivery part of the delivery kinds. -/
def base : ActionConfig D.unicode P → Option DeliveryConfigBase
  | .semanticFilter _ | .extract _ => none
  | .webhook c => some c.toDeliveryConfigBase
  | .log c => some c.toDeliveryConfigBase
  | .plugin c => plugins.base c

def modelDump : ActionConfig D.unicode P → Json
  | .semanticFilter c => c.modelDump
  | .extract c => c.modelDump
  | .webhook c => c.modelDump
  | .log c => c.modelDump
  | .plugin c => plugins.modelDump c

/-- The config, if it is a webhook's. -/
def asWebhook : ActionConfig D.unicode P → Option (WebhookConfig D.unicode)
  | .webhook c => some c
  | _ => none

/-- `merge_preserving`; a plugin's prior config is of its own kind. -/
def mergePreserving : ActionConfig D.unicode P → ActionConfig D.unicode P →
    Except ConfigError (ActionConfig D.unicode P)
  | .webhook c, prior => (c.mergePreserving (prior.asWebhook D)).map .webhook
  | .plugin c, .plugin prior => (plugins.mergePreserving c prior).map .plugin
  | c, _ => .ok c

def hasMaskedSecret : ActionConfig D.unicode P → Bool
  | .webhook c => c.hasMaskedSecret
  | .plugin c => plugins.hasMaskedSecret c
  | _ => false

/-- `enforce_action_policy`. -/
def enforceActionPolicy : ActionConfig D.unicode P → Except ConfigError (ActionConfig D.unicode P)
  | .semanticFilter c => do
    enforceEngineRegistered D c.toEngineActionConfigBase
    return .semanticFilter c
  | .extract c => do
    enforceEngineRegistered D c.toEngineActionConfigBase
    return .extract c
  | .webhook c => do
    enforceDigestInterval D c.toDeliveryConfigBase
    enforceWebhookUrlSafety D c.url
    return .webhook c
  | .log c => do
    enforceDigestInterval D c.toDeliveryConfigBase
    return .log c
  | .plugin c => (plugins.enforceActionPolicy c).map .plugin

/-! ### What the classes promise -/

variable {D plugins}

theorem kind_modelValidate {k : String} {f : Json → Except ConfigError (ActionConfig D.unicode P)}
    {d : Json} {c : ActionConfig D.unicode P} (hf : modelValidate D plugins k = some f)
    (hc : f d = .ok c) : kind D plugins c = k := by
  unfold modelValidate at hf
  split_ifs at hf with h₁ h₂ h₃ h₄
  · obtain rfl := Option.some.inj hf
    obtain ⟨a, -, rfl⟩ := Except.map_eq_ok.mp hc
    exact h₁.symm
  · obtain rfl := Option.some.inj hf
    obtain ⟨a, -, rfl⟩ := Except.map_eq_ok.mp hc
    exact h₂.symm
  · obtain rfl := Option.some.inj hf
    obtain ⟨a, -, rfl⟩ := Except.map_eq_ok.mp hc
    exact h₃.symm
  · obtain rfl := Option.some.inj hf
    obtain ⟨a, -, rfl⟩ := Except.map_eq_ok.mp hc
    exact h₄.symm
  · obtain ⟨g, hg, rfl⟩ := Option.map_eq_some_iff.mp hf
    obtain ⟨a, ha, rfl⟩ := Except.map_eq_ok.mp hc
    exact plugins.kind_modelValidate hg ha

/-- A plugin's kind has the plugin's class. -/
theorem modelValidate_plugin (c : P) : modelValidate D plugins (plugins.kind c) =
    (plugins.modelValidate (plugins.kind c)).map fun f d => (f d).map .plugin := by
  have h := plugins.kind_not_builtin c
  simp only [builtinKinds, List.mem_cons, List.not_mem_nil, or_false, not_or] at h
  rw [modelValidate, if_neg h.1, if_neg h.2.1, if_neg h.2.2.1, if_neg h.2.2.2]

theorem enforceActionPolicy_eq {c c' : ActionConfig D.unicode P}
    (h : enforceActionPolicy D plugins c = .ok c') : c' = c := by
  cases c with
  | semanticFilter c =>
    obtain ⟨_, -, h⟩ := Except.bind_eq_ok.mp h
    exact (Except.pure_eq_ok.mp h).symm
  | extract c =>
    obtain ⟨_, -, h⟩ := Except.bind_eq_ok.mp h
    exact (Except.pure_eq_ok.mp h).symm
  | webhook c =>
    obtain ⟨_, -, h⟩ := Except.bind_eq_ok.mp h
    obtain ⟨_, -, h⟩ := Except.bind_eq_ok.mp h
    exact (Except.pure_eq_ok.mp h).symm
  | log c =>
    obtain ⟨_, -, h⟩ := Except.bind_eq_ok.mp h
    exact (Except.pure_eq_ok.mp h).symm
  | plugin c =>
    obtain ⟨a, ha, rfl⟩ := Except.map_eq_ok.mp h
    rw [plugins.enforceActionPolicy_eq ha]

theorem kind_mergePreserving {c prior c' : ActionConfig D.unicode P}
    (h : mergePreserving D plugins c prior = .ok c') : kind D plugins c' = kind D plugins c := by
  cases c with
  | webhook c =>
    obtain ⟨a, -, rfl⟩ := Except.map_eq_ok.mp h
    rfl
  | plugin c =>
    cases prior with
    | plugin p =>
      obtain ⟨a, ha, rfl⟩ := Except.map_eq_ok.mp h
      exact plugins.kind_mergePreserving ha
    | _ => rw [← Except.ok.inj h]
  | _ => rw [← Except.ok.inj h]

/-- A stored config loads again with the same delivery. -/
theorem reload (c : ActionConfig D.unicode P) : ∃ f c',
    modelValidate D plugins (kind D plugins c) = some f ∧ f (modelDump D plugins c) = .ok c' ∧
      base D plugins c' = base D plugins c := by
  cases c with
  | semanticFilter c =>
    exact ⟨_, .semanticFilter c, rfl,
      Except.map_eq_ok.mpr ⟨c, c.modelValidate_modelDump D.lax, rfl⟩, rfl⟩
  | extract c =>
    exact ⟨_, .extract c, rfl, Except.map_eq_ok.mpr ⟨c, c.modelValidate_modelDump D.lax, rfl⟩, rfl⟩
  | webhook c =>
    exact ⟨_, .webhook c, rfl, Except.map_eq_ok.mpr ⟨c, c.modelValidate_modelDump D.lax, rfl⟩, rfl⟩
  | log c => exact ⟨_, .log c, rfl, Except.map_eq_ok.mpr ⟨c, c.modelValidate_modelDump D.lax, rfl⟩, rfl⟩
  | plugin c =>
    obtain ⟨f, c', hf, hc, hb⟩ := plugins.reload c
    refine ⟨_, .plugin c', (modelValidate_plugin c).trans (congrArg _ hf), ?_, hb⟩
    exact Except.map_eq_ok.mpr ⟨c', hc, rfl⟩

end ActionConfig

/-- **The registry of a deployment.** -/
def actionRegistry : Registry (ActionConfig D.unicode P) where
  modelValidate := ActionConfig.modelValidate D plugins
  kind := ActionConfig.kind D plugins
  base := ActionConfig.base D plugins
  modelDump := ActionConfig.modelDump D plugins
  mergePreserving := ActionConfig.mergePreserving D plugins
  hasMaskedSecret := ActionConfig.hasMaskedSecret D plugins
  enforceActionPolicy := ActionConfig.enforceActionPolicy D plugins
  kind_modelValidate := ActionConfig.kind_modelValidate
  kind_mergePreserving := ActionConfig.kind_mergePreserving
  enforceActionPolicy_eq := ActionConfig.enforceActionPolicy_eq
  reload := ActionConfig.reload

/-! ## Redaction -/

/-- What a config class promises about reads and edits: what it dumps loads as itself, and its
masked form, submitted back, merges with it to itself. -/
structure Redaction {C : Type} (R : Registry C) where
  redactedDump : C → Json
  reload_eq : ∀ {c f}, R.modelValidate (R.kind c) = some f → f (R.modelDump c) = .ok c
  restores : ∀ {c f s}, R.modelValidate (R.kind c) = some f → f (redactedDump c) = .ok s →
    R.mergePreserving s c = .ok c

/-- `redacted_dump`; only a webhook has secrets among the built-in kinds. -/
def ActionConfig.redactedDump (secrets : Redaction plugins.toRegistry) :
    ActionConfig D.unicode P → Json
  | .semanticFilter c => c.modelDump
  | .extract c => c.modelDump
  | .webhook c => c.redactedDump
  | .log c => c.modelDump
  | .plugin c => secrets.redactedDump c

/-- **The built-in kinds keep the promise** when the plugins do. -/
def actionRedaction (secrets : Redaction plugins.toRegistry) :
    Redaction (actionRegistry D plugins) where
  redactedDump := ActionConfig.redactedDump D plugins secrets
  reload_eq := by
    intro c f hf
    cases c with
    | semanticFilter c =>
      obtain rfl := Option.some.inj hf
      exact Except.map_eq_ok.mpr ⟨c, c.modelValidate_modelDump D.lax, rfl⟩
    | extract c =>
      obtain rfl := Option.some.inj hf
      exact Except.map_eq_ok.mpr ⟨c, c.modelValidate_modelDump D.lax, rfl⟩
    | webhook c =>
      obtain rfl := Option.some.inj hf
      exact Except.map_eq_ok.mpr ⟨c, c.modelValidate_modelDump D.lax, rfl⟩
    | log c =>
      obtain rfl := Option.some.inj hf
      exact Except.map_eq_ok.mpr ⟨c, c.modelValidate_modelDump D.lax, rfl⟩
    | plugin c =>
      obtain ⟨g, hg, rfl⟩ :=
        Option.map_eq_some_iff.mp ((ActionConfig.modelValidate_plugin c).symm.trans hf)
      exact Except.map_eq_ok.mpr ⟨c, secrets.reload_eq hg, rfl⟩
  restores := by
    intro c f s hf hs
    cases c with
    | semanticFilter c =>
      obtain rfl := Option.some.inj hf
      obtain ⟨a, ha, rfl⟩ := Except.map_eq_ok.mp hs
      rw [Except.ok.inj (ha.symm.trans (c.modelValidate_modelDump D.lax))]
      rfl
    | extract c =>
      obtain rfl := Option.some.inj hf
      obtain ⟨a, ha, rfl⟩ := Except.map_eq_ok.mp hs
      rw [Except.ok.inj (ha.symm.trans (c.modelValidate_modelDump D.lax))]
      rfl
    | webhook c =>
      obtain rfl := Option.some.inj hf
      obtain ⟨a, ha, rfl⟩ := Except.map_eq_ok.mp hs
      exact Except.map_eq_ok.mpr ⟨c, WebhookConfig.restores D.lax ha, rfl⟩
    | log c =>
      obtain rfl := Option.some.inj hf
      obtain ⟨a, ha, rfl⟩ := Except.map_eq_ok.mp hs
      rw [Except.ok.inj (ha.symm.trans (c.modelValidate_modelDump D.lax))]
      rfl
    | plugin c =>
      obtain ⟨g, hg, rfl⟩ :=
        Option.map_eq_some_iff.mp ((ActionConfig.modelValidate_plugin c).symm.trans hf)
      obtain ⟨a, ha, rfl⟩ := Except.map_eq_ok.mp hs
      exact Except.map_eq_ok.mpr ⟨c, secrets.restores hg ha, rfl⟩

/-! ## A deployment without plugins -/

/-- ASCII case mapping. -/
def asciiUnicode : Url.Unicode := ⟨List.map Char.toLower, id⟩

/-- A deployment that blocks no address and has no engine. -/
def sampleDeployment : Deployment where
  lax := strictMode
  unicode := asciiUnicode
  digestMin := 60
  digestMax := 86400
  requireHttps := true
  blockPrivateIps := true
  blockedAddress _ := none
  engineKinds := []
  defaultEngine := ""

/-- No plugin is registered. -/
def noPlugins : PluginRegistry Empty where
  modelValidate _ := none
  kind := Empty.elim
  base := Empty.elim
  modelDump := Empty.elim
  mergePreserving c _ := c.elim
  hasMaskedSecret := Empty.elim
  enforceActionPolicy := Empty.elim
  kind_modelValidate h := nomatch h
  kind_mergePreserving {c} := c.elim
  enforceActionPolicy_eq {c} := c.elim
  reload c := c.elim
  kind_not_builtin c := c.elim

/-- The registry of the sample deployment. -/
abbrev sampleActions : Registry (ActionConfig asciiUnicode Empty) :=
  actionRegistry sampleDeployment noPlugins

/-- A webhook whose token header has the given value. -/
def hook (token : String) : WebhookConfig asciiUnicode where
  url := "https://hook.test/x"
  headers := [("Authorization", token)]
  url_valid := by decide
  headers_nodup := List.nodup_singleton _

/-- The row that stores `hook token`. -/
def hookRow (token : String) : WatchAction := ⟨7, 1, 2, "webhook", (hook token).modelDump, 0⟩

/-- Nothing is promised for no plugin. -/
def noSecrets : Redaction noPlugins.toRegistry where
  redactedDump := Empty.elim
  reload_eq {c} := c.elim
  restores {c} := c.elim

end OpenMagpie
