import OpenMagpie.Watches.Kinds

/-!
# A run on the wire

The audit row of a run: a member of the run union, picked by the run's kind, with the stored result
read as that kind's result model.

* `SemanticFilterResult`, `ExtractResult`, `LogResult`, `WebhookResult`: the result models.
* `WatchActionRunWire`, `buildWatchActionRunWire`, `watchActionRunWire`: the union, its builder,
  and the row's fail-safe.
* `RunResult`: a result of any kind; **`watchActionRunWire_of_dump`**: a run whose kind is the
  result's kind shows exactly the result.
-/

set_option autoImplicit false

namespace OpenMagpie

open LogConfig (field)

variable (V : LaxMode)

/-! ## Result models -/

/-- How the fetch of a linked article fared. -/
inductive ExternalContentStatus
  | notApplicable
  | disabled
  | included
  | includedViaFallback
  | unavailable
  | missing
  deriving DecidableEq

namespace ExternalContentStatus

def value : ExternalContentStatus → String
  | notApplicable => "not_applicable"
  | disabled => "disabled"
  | included => "included"
  | includedViaFallback => "included_via_fallback"
  | unavailable => "unavailable"
  | missing => "missing"

def read : Json → Option ExternalContentStatus
  | .str "not_applicable" => some notApplicable
  | .str "disabled" => some disabled
  | .str "included" => some included
  | .str "included_via_fallback" => some includedViaFallback
  | .str "unavailable" => some unavailable
  | .str "missing" => some missing
  | _ => none

theorem read_value (s : ExternalContentStatus) : read (.str s.value) = some s := by
  cases s <;> rfl

end ExternalContentStatus

/-- How complete an extraction was. -/
inductive ExtractStatus
  | complete
  | partially
  | empty
  deriving DecidableEq

namespace ExtractStatus

def value : ExtractStatus → String
  | complete => "complete"
  | partially => "partial"
  | empty => "empty"

def read : Json → Option ExtractStatus
  | .str "complete" => some complete
  | .str "partial" => some partially
  | .str "empty" => some empty
  | _ => none

theorem read_value (s : ExtractStatus) : read (.str s.value) = some s := by
  cases s <;> rfl

end ExtractStatus

/-- The result of a `semantic_filter` run. -/
structure SemanticFilterResult where
  passed : Bool
  score : ℚ
  reason : String := ""
  enrichmentStatus : ExternalContentStatus := .notApplicable
  score_bounds : 0 ≤ score ∧ score ≤ 1 := by decide

namespace SemanticFilterResult

def modelValidate (d : Json) : Option SemanticFilterResult :=
  match d.get? "passed" >>= V.bool, d.get? "score" >>= V.float, field "reason" "" V.str d,
    field "enrichment_status" .notApplicable ExternalContentStatus.read d with
  | some passed, some score, some reason, some status =>
    if h : 0 ≤ score ∧ score ≤ 1 then
      some { passed := passed, score := score, reason := reason, enrichmentStatus := status,
             score_bounds := h }
    else none
  | _, _, _, _ => none

def modelDump (r : SemanticFilterResult) : Json :=
  .obj [("passed", .bool r.passed), ("score", .float r.score), ("reason", .str r.reason),
    ("enrichment_status", .str r.enrichmentStatus.value)]

theorem modelValidate_modelDump (r : SemanticFilterResult) :
    modelValidate V r.modelDump = some r := by
  have hp : r.modelDump.get? "passed" >>= V.bool = some r.passed := V.bool_eq _
  have hs : r.modelDump.get? "score" >>= V.float = some r.score := V.float_eq _
  have hr : field "reason" "" V.str r.modelDump = some r.reason := V.str_eq _
  have he : field "enrichment_status" .notApplicable ExternalContentStatus.read r.modelDump =
      some r.enrichmentStatus := ExternalContentStatus.read_value _
  rw [modelValidate, hp, hs, hr, he]
  exact dif_pos r.score_bounds

end SemanticFilterResult

/-- The result of an `extract` run. -/
structure ExtractResult where
  extracted : List (String × String) := []
  status : ExtractStatus := .empty
  enrichmentStatus : ExternalContentStatus := .notApplicable

namespace ExtractResult

/-- A `dict[str, str]`. -/
def readExtracted : Json → Option (List (String × String))
  | .obj kvs => kvs.mapM fun kv => (V.str kv.2).map (kv.1, ·)
  | _ => none

def modelValidate (d : Json) : Option ExtractResult :=
  match d with
  | .obj kvs => do
    let extracted ← field "extracted" [] (readExtracted V) (.obj kvs)
    let status ← field "status" .empty ExtractStatus.read (.obj kvs)
    let enrichmentStatus ←
      field "enrichment_status" .notApplicable ExternalContentStatus.read (.obj kvs)
    return { extracted, status, enrichmentStatus }
  | _ => none

def modelDump (r : ExtractResult) : Json :=
  .obj [("extracted", .obj (r.extracted.map fun kv => (kv.1, .str kv.2))),
    ("status", .str r.status.value), ("enrichment_status", .str r.enrichmentStatus.value)]

theorem readExtracted_map (kvs : List (String × String)) :
    readExtracted V (.obj (kvs.map fun kv => (kv.1, .str kv.2))) = some kvs := by
  rw [readExtracted]
  induction kvs with
  | nil => rfl
  | cons kv kvs ih =>
    rw [List.map_cons, List.mapM_cons, V.str_eq, ih]
    rfl

theorem modelValidate_modelDump (r : ExtractResult) : modelValidate V r.modelDump = some r := by
  have hx : field "extracted" [] (readExtracted V) r.modelDump = some r.extracted :=
    readExtracted_map V _
  have hs : field "status" .empty ExtractStatus.read r.modelDump = some r.status :=
    ExtractStatus.read_value _
  have he : field "enrichment_status" .notApplicable ExternalContentStatus.read r.modelDump =
      some r.enrichmentStatus := ExternalContentStatus.read_value _
  rw [modelDump] at hx hs he
  simp [modelDump, modelValidate, hx, hs, he]

end ExtractResult

/-- The result of a `log` run. -/
structure LogResult where
  rendered : String := ""

namespace LogResult

def modelValidate (d : Json) : Option LogResult :=
  match d with
  | .obj kvs => (field "rendered" "" V.str (.obj kvs)).map (⟨·⟩)
  | _ => none

def modelDump (r : LogResult) : Json := .obj [("rendered", .str r.rendered)]

theorem modelValidate_modelDump (r : LogResult) : modelValidate V r.modelDump = some r := by
  have hr : field "rendered" "" V.str r.modelDump = some r.rendered := V.str_eq _
  rw [modelDump] at hr
  simp [modelDump, modelValidate, hr]

end LogResult

/-- The result of a `webhook` run. -/
structure WebhookResult where
  httpStatus : ℤ

namespace WebhookResult

def modelValidate (d : Json) : Option WebhookResult := (d.get? "http_status" >>= V.int).map (⟨·⟩)

def modelDump (r : WebhookResult) : Json := .obj [("http_status", .num r.httpStatus)]

theorem modelValidate_modelDump (r : WebhookResult) : modelValidate V r.modelDump = some r := by
  have hr : r.modelDump.get? "http_status" >>= V.int = some r.httpStatus := V.int_eq _
  rw [modelValidate, hr]
  rfl

end WebhookResult

/-! ## The run union -/

/-- `KIND_MAX_LENGTH`. -/
def kindMaxLength : ℕ := 32

/-- A kind that a plugin may register, and that the plugin member accepts. -/
def IsPluginKind (kind : String) : Prop :=
  1 ≤ kind.length ∧ kind.length ≤ kindMaxLength ∧ strip kind.toList = kind.toList ∧
    kind ∉ builtinKinds

instance (kind : String) : Decidable (IsPluginKind kind) := by
  unfold IsPluginKind; infer_instance

/-- The kind of a plugin's action. -/
abbrev PluginKind := {kind : String // IsPluginKind kind}

/-- The fields of an audit row that do not depend on its kind. -/
structure WatchActionRunFields where
  id : Id
  watchId : Id
  actionId : Id
  feedItemId : Id
  state : WatchActionRunState
  error : String := ""
  scheduledAt : Option Time := none
  startedAt : Option Time := none
  completedAt : Option Time := none

/-- An audit row: the four built-in members and the plugin member. -/
inductive WatchActionRunWire
  | semanticFilter (fields : WatchActionRunFields) (result : Option SemanticFilterResult)
  | extract (fields : WatchActionRunFields) (result : Option ExtractResult)
  | log (fields : WatchActionRunFields) (result : Option LogResult)
  | webhook (fields : WatchActionRunFields) (result : Option WebhookResult)
  | plugin (fields : WatchActionRunFields) (kind : PluginKind)
      (result : Option (List (String × Json)))

/-- The built-in members, by their discriminator. -/
def builtinRunWire (kind : String) (fields : WatchActionRunFields) (result : Option Json) :
    Option WatchActionRunWire :=
  if kind = "semantic_filter" then
    (result.mapM (SemanticFilterResult.modelValidate V)).map (.semanticFilter fields)
  else if kind = "extract" then (result.mapM (ExtractResult.modelValidate V)).map (.extract fields)
  else if kind = "log" then (result.mapM (LogResult.modelValidate V)).map (.log fields)
  else if kind = "webhook" then (result.mapM (WebhookResult.modelValidate V)).map (.webhook fields)
  else none

/-- A `dict[str, Any]`. -/
def readDict : Json → Option (List (String × Json))
  | .obj kvs => some kvs
  | _ => none

/-- The plugin member. -/
def pluginRunWire (kind : String) (fields : WatchActionRunFields) (result : Option Json) :
    Option WatchActionRunWire :=
  if h : IsPluginKind kind then (result.mapM readDict).map (.plugin fields ⟨kind, h⟩) else none

/-- `build_watch_action_run_wire`: an empty result is none, and the members are tried from left to
right; none when all of them refuse the row. -/
def buildWatchActionRunWire (kind : String) (fields : WatchActionRunFields)
    (result : Option Json) : Option WatchActionRunWire :=
  builtinRunWire V kind fields (result.filter Json.truthy) <|>
    pluginRunWire kind fields (result.filter Json.truthy)

/-- The kind-independent fields of a run. -/
def runFields (run : WatchActionRun) : WatchActionRunFields where
  id := run.id
  watchId := run.watchId
  actionId := run.actionId
  feedItemId := run.feedItemId
  state := run.state
  error := run.error
  scheduledAt := run.scheduledAt
  startedAt := run.startedAt
  completedAt := run.completedAt

/-- `watch_action_run_wire`: a malformed result is dropped, a row with a corrupt kind is skipped. -/
def watchActionRunWire (run : WatchActionRun) : Option WatchActionRunWire :=
  buildWatchActionRunWire V run.kind (runFields run) (some run.result) <|>
    buildWatchActionRunWire V run.kind (runFields run) none

/-- **A row is skipped exactly when no member has its kind.** -/
theorem watchActionRunWire_isSome (run : WatchActionRun) :
    (watchActionRunWire V run).isSome ↔ run.kind ∈ builtinKinds ∨ IsPluginKind run.kind := by
  have hb : (buildWatchActionRunWire V run.kind (runFields run) none).isSome ↔
      run.kind ∈ builtinKinds ∨ IsPluginKind run.kind := by
    simp only [buildWatchActionRunWire, builtinRunWire, pluginRunWire, builtinKinds, List.mem_cons]
    split_ifs <;> simp_all
  have hs : (buildWatchActionRunWire V run.kind (runFields run) (some run.result)).isSome →
      run.kind ∈ builtinKinds ∨ IsPluginKind run.kind := by
    simp only [buildWatchActionRunWire, builtinRunWire, pluginRunWire, builtinKinds, List.mem_cons]
    split_ifs <;> simp_all
  rw [watchActionRunWire, Option.orElse_eq_orElse, Option.orElse_eq_or, Option.isSome_or,
    Bool.or_eq_true, hb]
  exact ⟨fun h => h.elim hs id, .inr⟩

/-! ## Results by kind -/

/-- A result of any kind. The result of a plugin's action is a non-empty object. -/
inductive RunResult
  | semanticFilter (r : SemanticFilterResult)
  | extract (r : ExtractResult)
  | log (r : LogResult)
  | webhook (r : WebhookResult)
  | plugin (kind : PluginKind) (kv : String × Json) (kvs : List (String × Json))

namespace RunResult

/-- The kind whose result model it is of. -/
def kind : RunResult → String
  | semanticFilter _ => "semantic_filter"
  | extract _ => "extract"
  | log _ => "log"
  | webhook _ => "webhook"
  | plugin kind _ _ => kind

/-- The stored blob. -/
def dump : RunResult → Json
  | semanticFilter r => r.modelDump
  | extract r => r.modelDump
  | log r => r.modelDump
  | webhook r => r.modelDump
  | plugin _ kv kvs => .obj (kv :: kvs)

/-- The member of its kind that shows the result. -/
def wire (fields : WatchActionRunFields) : RunResult → WatchActionRunWire
  | semanticFilter r => .semanticFilter fields (some r)
  | extract r => .extract fields (some r)
  | log r => .log fields (some r)
  | webhook r => .webhook fields (some r)
  | plugin kind kv kvs => .plugin fields kind (some (kv :: kvs))

theorem truthy_dump (x : RunResult) : x.dump.truthy = true := by cases x <;> rfl

end RunResult

/-- A result is read back from its dump by the member of its kind. -/
theorem buildWatchActionRunWire_dump (x : RunResult) (fields : WatchActionRunFields) :
    buildWatchActionRunWire V x.kind fields (some x.dump) = some (x.wire fields) := by
  rw [buildWatchActionRunWire, Option.filter_some_pos x.truthy_dump]
  cases x with
  | semanticFilter r =>
    simp [builtinRunWire, RunResult.kind, RunResult.dump, RunResult.wire,
      SemanticFilterResult.modelValidate_modelDump]
  | extract r =>
    simp [builtinRunWire, RunResult.kind, RunResult.dump, RunResult.wire,
      ExtractResult.modelValidate_modelDump]
  | log r =>
    simp [builtinRunWire, RunResult.kind, RunResult.dump, RunResult.wire,
      LogResult.modelValidate_modelDump]
  | webhook r =>
    simp [builtinRunWire, RunResult.kind, RunResult.dump, RunResult.wire,
      WebhookResult.modelValidate_modelDump]
  | plugin kind kv kvs =>
    have hk := kind.2.2.2.2
    simp only [builtinKinds, List.mem_cons, not_or] at hk
    simp [builtinRunWire, pluginRunWire, RunResult.kind, RunResult.dump, RunResult.wire, readDict,
      hk, kind.2]

/-- **A run of the result's kind shows exactly the result.** -/
theorem watchActionRunWire_of_dump {run : WatchActionRun} (x : RunResult) (hk : run.kind = x.kind)
    (hr : run.result = x.dump) : watchActionRunWire V run = some (x.wire (runFields run)) := by
  rw [watchActionRunWire, hk, hr, buildWatchActionRunWire_dump]
  rfl

end OpenMagpie
