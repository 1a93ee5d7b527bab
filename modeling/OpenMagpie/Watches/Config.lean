import OpenMagpie.Lib.Except
import OpenMagpie.Watches.Models

/-!
# Action configs

An action's `config` column is a JSON blob; a registry of config classes, one per kind, turns it
into a typed config and back.

* `LaxMode`: the validation library's readers of scalar fields.
* `DeliveryConfigBase`: cadence and window length; a digest has a positive length by construction.
* `Registry`: the config classes and what they promise. A config class keeps its kind through a
  merge, and what it dumps loads again with the same delivery.
* `parseConfig`, `validateConfig`, `loadConfig`, `mergeConfig`: the parse family.
* `digestInterval`, `IsDigest`: the stored cadence of an action.
* **`IsDigest.of_stored`**: a row that stores the dump of a merged config is a digest exactly when
  the merged config is.
* `logRegistry`: the registry with the `log` kind.
-/

set_option autoImplicit false

namespace OpenMagpie

/-! ## Scalar fields -/

/-- How the validation library reads a scalar field. It may coerce other values; a value that
already has the field's type is read as itself. -/
structure LaxMode where
  bool : Json → Option Bool
  int : Json → Option ℤ
  float : Json → Option ℚ
  str : Json → Option String
  bool_eq : ∀ b, bool (.bool b) = some b
  int_eq : ∀ n, int (.num n) = some n
  float_eq : ∀ q, float (.float q) = some q
  str_eq : ∀ s, str (.str s) = some s

/-- Readers that coerce nothing. -/
def strictMode : LaxMode where
  bool | .bool b => some b | _ => none
  int | .num n => some n | _ => none
  float | .float q => some q | .num n => some n | _ => none
  str | .str s => some s | _ => none
  bool_eq _ := rfl
  int_eq _ := rfl
  float_eq _ := rfl
  str_eq _ := rfl

/-! ## Delivery configs -/

/-- Cadence of a delivery action. -/
inductive DeliveryCadence
  | instant
  | digest
  deriving DecidableEq, Repr

theorem instant_requires_nothing : DeliveryCadence.instant = .digest → 0 < 0 := nofun

theorem minute_pos : DeliveryCadence.digest = .digest → 0 < 60 := by decide

/-- The cadence of a delivery and the length of its digest window. -/
structure DeliveryConfigBase where
  delivery : DeliveryCadence := .instant
  digestIntervalSeconds : ℕ := 0
  digest_requires_interval : delivery = .digest → 0 < digestIntervalSeconds := by
    first | exact instant_requires_nothing | decide

/-! ## The registry -/

/-- Why a config is refused. -/
inductive ConfigError
  | unknownKind (kind : String)
  | validation (message : String)
  | policy (message : String)
  deriving DecidableEq

/-- The config classes by kind, with the methods the operations call. `base` is the delivery part
of a config when its class is a delivery class. -/
structure Registry (C : Type) where
  modelValidate : String → Option (Json → Except ConfigError C)
  kind : C → String
  base : C → Option DeliveryConfigBase
  modelDump : C → Json
  mergePreserving : C → C → Except ConfigError C
  hasMaskedSecret : C → Bool
  enforceActionPolicy : C → Except ConfigError C
  kind_modelValidate : ∀ {k f d c}, modelValidate k = some f → f d = .ok c → kind c = k
  kind_mergePreserving : ∀ {c p c'}, mergePreserving c p = .ok c' → kind c' = kind c
  enforceActionPolicy_eq : ∀ {c c'}, enforceActionPolicy c = .ok c' → c' = c
  reload : ∀ c, ∃ f c', modelValidate (kind c) = some f ∧ f (modelDump c) = .ok c' ∧
    base c' = base c

variable {C : Type} (R : Registry C)

/-- `known_kinds`: the kinds a write may name. -/
def IsKnownKind (kind : String) : Prop := (R.modelValidate kind).isSome

instance (kind : String) : Decidable (IsKnownKind R kind) := by
  unfold IsKnownKind; infer_instance

/-- `parse_config`: shape only. -/
def parseConfig (kind : String) (data : Json) : Except ConfigError C :=
  match R.modelValidate kind with
  | none => .error (.unknownKind kind)
  | some f => f data

/-- `validate_config`: shape and policy. -/
def validateConfig (kind : String) (data : Json) : Except ConfigError C := do
  R.enforceActionPolicy (← parseConfig R kind data)

/-- `load_config`: the typed config of a stored row. -/
def loadConfig (action : WatchAction) : Except ConfigError C :=
  parseConfig R action.kind action.config

/-- `merge_config`: shape, then what the prior config carries forward, then policy. -/
def mergeConfig (kind : String) (data : Json) (prior : Option C) : Except ConfigError C := do
  let submitted ← parseConfig R kind data
  let merged ← match prior with
    | some p => R.mergePreserving submitted p
    | none => pure submitted
  R.enforceActionPolicy merged

/-- The window length of a digest config, none for any other config. -/
def intervalOf (c : C) : Option ℕ :=
  match R.base c with
  | some b => if b.delivery = .digest then some b.digestIntervalSeconds else none
  | none => none

/-- The window length of a stored action: none unless it is a digest. -/
def digestInterval (action : WatchAction) : Except ConfigError (Option ℕ) := do
  return intervalOf R (← loadConfig R action)

/-- The stored config is a digest delivery. -/
def IsDigest (action : WatchAction) : Prop := ∃ n, digestInterval R action = .ok (some n)

/-! ## What the parse family returns -/

variable {R}

theorem kind_parseConfig {kind : String} {data : Json} {c : C}
    (h : parseConfig R kind data = .ok c) : R.kind c = kind := by
  unfold parseConfig at h
  split at h
  · cases h
  · exact R.kind_modelValidate ‹_› h

/-- **A merged config is of the submitted kind.** -/
theorem kind_mergeConfig {kind : String} {data : Json} {prior : Option C} {c : C}
    (h : mergeConfig R kind data prior = .ok c) : R.kind c = kind := by
  obtain ⟨s, hs, h⟩ := Except.bind_eq_ok.mp h
  cases prior with
  | none =>
    obtain ⟨m, hm, h⟩ := Except.bind_eq_ok.mp h
    rw [R.enforceActionPolicy_eq h, ← Except.pure_eq_ok.mp hm, kind_parseConfig hs]
  | some p =>
    obtain ⟨m, hm, h⟩ := Except.bind_eq_ok.mp h
    rw [R.enforceActionPolicy_eq h, R.kind_mergePreserving hm, kind_parseConfig hs]

theorem kind_validateConfig {kind : String} {data : Json} {c : C}
    (h : validateConfig R kind data = .ok c) : R.kind c = kind := by
  obtain ⟨s, hs, h⟩ := Except.bind_eq_ok.mp h
  rw [R.enforceActionPolicy_eq h, kind_parseConfig hs]

/-- **What a row stores, it loads.** The cadence of a row that stores a config's dump under the
config's kind is the config's. -/
theorem digestInterval_of_stored {action : WatchAction} {c : C} (hk : action.kind = R.kind c)
    (hd : action.config = R.modelDump c) : digestInterval R action = .ok (intervalOf R c) := by
  obtain ⟨f, c', hf, hc', hb⟩ := R.reload c
  simp only [digestInterval, loadConfig, parseConfig, hk, hd, hf, hc', bind, Except.bind, pure,
    Except.pure, intervalOf, hb]

theorem IsDigest.of_stored {action : WatchAction} {c : C} (hk : action.kind = R.kind c)
    (hd : action.config = R.modelDump c) : IsDigest R action ↔ (intervalOf R c).isSome := by
  rw [IsDigest, digestInterval_of_stored hk hd, Option.isSome_iff_exists]
  simp

/-! ## The log kind -/

/-- Config of a `log` action. -/
structure LogConfig extends DeliveryConfigBase where
  linePrefix : String := "[watch]"
  includeFields : List String := []

namespace LogConfig

/-- An optional field of a submitted object. -/
def field {α : Type} (name : String) (default : α) (read : Json → Option α) (d : Json) : Option α :=
  match d.get? name with
  | none => some default
  | some v => read v

def readCadence : Json → Option DeliveryCadence
  | .str "instant" => some .instant
  | .str "digest" => some .digest
  | _ => none

variable (V : LaxMode)

def readInterval (d : Json) : Option ℕ :=
  match V.int d with
  | some n => if 0 ≤ n then some n.toNat else none
  | none => none

def readStrings : Json → Option (List String)
  | .arr xs => xs.mapM V.str
  | _ => none

/-- `LogConfig.model_validate`. -/
def modelValidate (d : Json) : Except ConfigError LogConfig :=
  match field "delivery" .instant readCadence d,
    field "digest_interval_seconds" 0 (readInterval V) d, field "prefix" "[watch]" V.str d,
    field "include_fields" [] (readStrings V) d with
  | some delivery, some n, some p, some fs =>
    if h : delivery = .digest → 0 < n then
      .ok { delivery := delivery, digestIntervalSeconds := n, digest_requires_interval := h,
            linePrefix := p, includeFields := fs }
    else .error (.validation "digest_interval_seconds must be > 0 when delivery is digest")
  | _, _, _, _ => .error (.validation "invalid log config")

def cadenceName : DeliveryCadence → String
  | .instant => "instant"
  | .digest => "digest"

/-- `LogConfig.model_dump`. -/
def modelDump (c : LogConfig) : Json :=
  .obj [("delivery", .str (cadenceName c.delivery)),
    ("digest_interval_seconds", .num c.digestIntervalSeconds), ("prefix", .str c.linePrefix),
    ("include_fields", .arr (c.includeFields.map .str))]

theorem readInterval_num (n : ℕ) : readInterval V (.num n) = some n := by
  simp [readInterval, V.int_eq]

theorem readStrings_map (fs : List String) : readStrings V (.arr (fs.map .str)) = some fs := by
  simp only [readStrings]
  induction fs with
  | nil => rfl
  | cons f fs ih => simp [List.mapM_cons, V.str_eq, ih]

/-- A dumped config loads as itself. -/
theorem modelValidate_modelDump (c : LogConfig) : modelValidate V (modelDump c) = .ok c := by
  have hc : readCadence (.str (cadenceName c.delivery)) = some c.delivery := by
    cases c.delivery <;> rfl
  simp only [modelValidate, modelDump, field, Json.get?, List.find?_cons]
  simp [hc, readInterval_num, V.str_eq, readStrings_map]
  exact dif_pos c.digest_requires_interval

end LogConfig

/-- **The registry with the `log` kind.** A log config has no secret, and its policy bounds the
window length of a digest by `lo` and `hi`. -/
def logRegistry (V : LaxMode) (lo hi : ℕ) : Registry LogConfig where
  modelValidate kind := if kind = "log" then some (LogConfig.modelValidate V) else none
  kind _ := "log"
  base c := some c.toDeliveryConfigBase
  modelDump := LogConfig.modelDump
  mergePreserving c _ := .ok c
  hasMaskedSecret _ := false
  enforceActionPolicy c :=
    if c.delivery = .digest → lo ≤ c.digestIntervalSeconds ∧ c.digestIntervalSeconds ≤ hi then .ok c
    else .error (.policy s!"digest_interval_seconds must be between {lo} and {hi} (got {c.digestIntervalSeconds})")
  kind_modelValidate h _ := by
    split at h
    · exact Eq.symm ‹_›
    · cases h
  kind_mergePreserving _ := rfl
  enforceActionPolicy_eq h := by
    split at h
    · exact (Except.ok.inj h).symm
    · cases h
  reload c := ⟨LogConfig.modelValidate V, c, rfl, LogConfig.modelValidate_modelDump V c, rfl⟩

end OpenMagpie
