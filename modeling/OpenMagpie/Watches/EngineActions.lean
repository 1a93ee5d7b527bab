import Mathlib.Tactic.NormNum
import Mathlib.Tactic.SplitIfs
import OpenMagpie.Engine.OverBridge
import OpenMagpie.Watches.External

/-!
# The engine-backed actions

`watches/actions/_engine_action.py`, `semantic_filter.py`, `extract.py`: both actions prepare an item,
call the engine, and make a result of what it returns.

* `EngineWorld.prepare`: what both do before the call.
* `EngineWorld.semanticFilter`, `EngineWorld.extract`: the runs; none where the run raises, so that the
  drain retries it.
* **`semanticFilter_result`**, **`extract_result`**: the stored result of a filter decides the run's
  state, and that of an extraction has the declared fields.
* **`gate_over_bridge`**, **`extract_over_bridge`**: with the bridge as backend, every reply that the
  bridge passes on settles the run, by the reply's own score and texts.
-/

set_option autoImplicit false

namespace OpenMagpie

open WatchActionRunState Engine
open Python (Exc)

/-! ## The runs -/

/-- An item as the actions read it, with the article that it links to. -/
structure Hydrated where
  item : PromptItem
  articleUrl : String

/-- What the actions work with: the engine's backend, the network, and the payload registry, which
reads a stored item, or does not know it. -/
structure EngineWorld (T : Type) where
  backend : Backend T
  external : External
  hydrate : Json → Option Hydrated

/-- `CONFIG_INVALID`, `ITEM_UNREADABLE`, `ENGINE_UNAVAILABLE`, `ENGINE_REJECTED`. -/
def configInvalid : String := "This action's configuration is invalid and can't be run."
def itemUnreadable : String :=
  "The source item couldn't be read (its stored format is no longer recognized)."
def engineUnavailable : String := "The configured engine isn't available on this server."
def engineRejected : String :=
  "The LLM rejected the request as misconfigured (verify ENGINE_BASE_URL, ENGINE_MODEL, and " ++
  "ENGINE_API_KEY on the server)."

/-- `DEFAULT_KIND`. -/
def engineKind : String := "openai_compat"

/-- What `_prepare` returns, or that it raises. -/
inductive EnginePrepared (C : Type)
  | defect (message : String)
  | raises
  | ready (config : C) (payload : Hydrated) (content : Option (List Char))
      (status : ExternalContentStatus)

namespace EngineWorld

variable {T : Type} (W : EngineWorld T)

/-- `_prepare`, after `load_config`. -/
def prepare {C : Type} (base : C → EngineActionConfigBase) (config : Except ConfigError C)
    (data : Json) : EnginePrepared C :=
  match config with
  | .error _ => .defect configInvalid
  | .ok config => match W.hydrate data with
    | none => .defect itemUnreadable
    | some payload =>
      if (base config).engine.kind ≠ "" ∧ (base config).engine.kind ≠ engineKind then
        .defect engineUnavailable
      else
        let enrichment := W.external.resolveExternalContent payload.articleUrl
          (base config).fetchExternalContent
        match enrichment.result with
        | .error _ => .raises
        | .ok (content, status) => .ready config payload (content.map String.toList) status

/-- `config.engine.model or None`. -/
def pinnedModel (b : EngineActionConfigBase) : Option String :=
  if b.engine.model = "" then none else some b.engine.model

/-- What a failure of the engine call makes of a run. -/
def engineFailure : EngineError → Option ActionResult
  | .rejected _ => some (.defect engineRejected)
  | .transient => none

/-- The result of a verdict. -/
def verdictResult (config : SemanticFilterConfig) (status : ExternalContentStatus)
    (verdict : JudgmentJSON) : SemanticFilterResult where
  passed := decide (config.threshold ≤ verdict.score)
  score := verdict.score
  reason := verdict.reason
  enrichmentStatus := status
  score_bounds := verdict.score_bounds

theorem gated_isOutcome : gated ∈ outcomeStates := by decide

/-- The run that a result makes. -/
def filterOutcome (result : SemanticFilterResult) : ActionResult :=
  if result.passed then { state := succeeded, result := result.modelDump }
  else { state := gated, result := result.modelDump, isOutcome := gated_isOutcome }

/-- `SemanticFilterAction.run`; `n` is the nonce of the call. -/
def semanticFilter (n : Nonce) (config data : Json) : Option ActionResult :=
  match W.prepare SemanticFilterConfig.toEngineActionConfigBase
    (SemanticFilterConfig.modelValidate W.backend.lax config) data with
  | .defect message => some (.defect message)
  | .raises => none
  | .ready config payload content status =>
    match judge W.backend n payload.item config.instructions.toList
      (pinnedModel config.toEngineActionConfigBase) content with
    | .error e => engineFailure e
    | .ok verdict => some (filterOutcome (verdictResult config status verdict))

/-- `_extract_status`. -/
def extractStatus (extracted : List (String × String)) (fields : List ExtractField) :
    ExtractStatus :=
  let filled := fields.countP fun f =>
    decide (strip ((extracted.lookup f.name).getD "").toList ≠ [])
  if filled = 0 then .empty else if filled = fields.length then .complete else .partially

/-- The result of an extraction. -/
def extractOutcome (fields : List ExtractField) (status : ExternalContentStatus)
    (extracted : List (String × String)) : ActionResult :=
  let result : ExtractResult := ⟨extracted, extractStatus extracted fields, status⟩
  { state := succeeded, result := result.modelDump }

/-- `ExtractAction.run`. -/
def extract (n : Nonce) (config data : Json) : Option ActionResult :=
  match W.prepare ExtractConfig.toEngineActionConfigBase
    (ExtractConfig.modelValidate W.backend.lax config) data with
  | .defect message => some (.defect message)
  | .raises => none
  | .ready config payload content status =>
    match Engine.extract W.backend n payload.item config.fields config.instructions.toList
      (pinnedModel config.toEngineActionConfigBase) content with
    | .error e => engineFailure e
    | .ok extracted => some (extractOutcome config.fields status extracted)

/-! ## A world with one item -/

/-- A judgment of an agent. -/
def sampleJudgment : List (Js.Str × Js.Value) :=
  [(Js.ofString "score", .num (.finite (1 / 2))), (Js.ofString "reason", .str (Js.ofString "ok"))]

/-- Its text. -/
def sampleReply : Js.Str := Js.exactEngine.stringify (.obj sampleJudgment)

theorem plain_sampleJudgment : ∀ kv ∈ sampleJudgment, IsPlain kv :=
  List.forall_mem_cons.mpr ⟨.num "score" _, List.forall_mem_singleton.mpr (.str "reason" "ok" rfl)⟩

theorem parsed_sampleJudgment : (Js.Value.obj sampleJudgment).Parsed := by
  have hhalf : Js.Number.ofRat (1 / 2) = .finite (1 / 2) := by decide +kernel
  refine .obj (by decide) fun p hp => ?_
  simp only [sampleJudgment, List.mem_cons, List.not_mem_nil, or_false] at hp
  rcases hp with rfl | rfl
  · rw [← hhalf]
    exact .num
  · exact .str

theorem ownOrder_sampleJudgment : Js.ownOrder sampleJudgment = sampleJudgment :=
  Js.ownOrder_eq_self (by decide)

theorem parse_sampleReply : Js.parse sampleReply = some (.obj sampleJudgment) := by
  have hnormal : (Js.Value.obj sampleJudgment).normal = .obj sampleJudgment := by
    rw [Js.normal_obj, Js.shownMembers, ownOrder_sampleJudgment]
    rfl
  exact (Js.parse_stringify Js.exactEngine parsed_sampleJudgment).trans (congrArg some hnormal)

theorem parseAgentJson_sampleReply :
    Bridge.parseAgentJson Js.exactEngine sampleReply (some (toJs judgmentSchema)) = .ok sampleReply := by
  have htext : (Bridge.fenced (Js.trim sampleReply)).getD (Js.trim sampleReply) = sampleReply := by
    decide +kernel
  have hrange : Bridge.ScoreInRange sampleJudgment := by
    intro v hv
    obtain rfl := Option.some.inj hv
    exact ⟨1 / 2, rfl, by norm_num, by norm_num⟩
  have hschema : Bridge.checkSchema Js.exactEngine sampleJudgment (toJs judgmentSchema) = .ok () := by
    rw [← show judgmentObject.schema = toJs judgmentSchema from rfl, Bridge.checkSchema_eq,
      ownOrder_sampleJudgment]
    rfl
  have hscore : Bridge.checkScore sampleJudgment = .ok () := by
    rcases Bridge.checkScore_cases parsed_sampleJudgment with ⟨h, -⟩ | ⟨-, -, -, hbad⟩
    · exact h
    · exact absurd hrange hbad
  rw [Bridge.parseAgentJson, Bridge.parseReply, htext, parse_sampleReply, Option.filter_some,
    if_pos (show (toJs judgmentSchema).truthy = true from rfl)]
  dsimp only
  rw [hschema, hscore]
  rfl

/-- A world with this reply for every request, and one item without a link. -/
def sampleWorld (reply : Js.Str) : EngineWorld Js.Str where
  backend := plainBackend fun _ => .ok [⟨some (some reply)⟩]
  external := External.badLabel
  hydrate _ := some ⟨samplePromptItem, ""⟩

theorem sampleThreshold_pos : (0 : ℚ) < 1 / 2 := by norm_num

theorem sampleThreshold_le : (1 / 2 : ℚ) ≤ 1 := by norm_num

def sampleFilter : SemanticFilterConfig where
  instructions := "tools"
  threshold := 1 / 2
  threshold_pos := sampleThreshold_pos
  threshold_le := sampleThreshold_le

theorem sampleName_valid : "name".toList ≠ [] ∧ "name".length ≤ 64 ∧
    "name".toList.all (fun c => c.isAlphanum || c = '_' || c = '-') := by decide

theorem sampleDescription_valid : strip "the name".toList = "the name".toList ∧
    1 ≤ "the name".toList.length ∧ "the name".toList.length ≤ 256 := by decide

def sampleField : ExtractField where
  name := "name"
  description := "the name".toList
  name_valid := sampleName_valid
  description_valid := sampleDescription_valid

theorem sampleFields_valid : [sampleField] ≠ [] ∧ [sampleField].length ≤ 64 ∧
    ([sampleField].map (·.name)).Nodup := by decide

def sampleExtract : ExtractConfig where
  fields := [sampleField]
  fields_valid := sampleFields_valid

/-- An extraction of an agent. -/
def sampleExtraction : List (Js.Str × Js.Value) := [(Js.ofString "name", .str (Js.ofString "x"))]

/-- Its text. -/
def sampleExtractReply : Js.Str := Js.exactEngine.stringify (.obj sampleExtraction)

theorem plain_sampleExtraction : ∀ kv ∈ sampleExtraction, IsPlain kv :=
  List.forall_mem_singleton.mpr (.str "name" "x" rfl)

theorem ownOrder_sampleExtraction : Js.ownOrder sampleExtraction = sampleExtraction :=
  Js.ownOrder_eq_self (by decide)

theorem parse_sampleExtraction :
    Js.parse (sampleExtractReply) = some (.obj sampleExtraction) := by
  have hparsed : (Js.Value.obj sampleExtraction).Parsed := by
    refine .obj (by decide) fun p hp => ?_
    obtain rfl := List.mem_singleton.mp hp
    exact .str
  have hnormal : (Js.Value.obj sampleExtraction).normal = .obj sampleExtraction := by
    rw [Js.normal_obj, Js.shownMembers, ownOrder_sampleExtraction]
    rfl
  exact (Js.parse_stringify Js.exactEngine hparsed).trans (congrArg some hnormal)

theorem parseAgentJson_sampleExtraction :
    Bridge.parseAgentJson Js.exactEngine (sampleExtractReply)
      (some (toJs (extractionSchema [sampleField]))) =
      .ok (sampleExtractReply) := by
  have htext : (Bridge.fenced (Js.trim (sampleExtractReply))).getD
      (Js.trim (sampleExtractReply)) =
      sampleExtractReply := by
    decide +kernel
  have hschema : Bridge.checkSchema Js.exactEngine sampleExtraction
      (toJs (extractionSchema [sampleField])) = .ok () := by
    rw [← show (extractionObject [sampleField]).schema = toJs (extractionSchema [sampleField]) from rfl,
      Bridge.checkSchema_eq, ownOrder_sampleExtraction]
    rfl
  rw [Bridge.parseAgentJson, Bridge.parseReply, htext, parse_sampleExtraction, Option.filter_some,
    if_pos (show (toJs (extractionSchema [sampleField])).truthy = true from rfl)]
  dsimp only
  rw [hschema]
  rfl

/-! ## What is stored -/

variable {W} {n : Nonce} {config data : Json} {r : ActionResult}

theorem prepare_ready {C : Type} {base : C → EngineActionConfigBase} {load : Except ConfigError C}
    {c : C} {payload : Hydrated} {content : Option (List Char)} {status : ExternalContentStatus}
    (h : W.prepare base load data = .ready c payload content status) : load = .ok c := by
  unfold prepare at h
  cases load with
  | error e => cases h
  | ok c' =>
    dsimp only at h
    split at h
    · cases h
    · split at h
      · cases h
      · split at h
        · cases h
        · cases h
          rfl

/-- The messages of a permanent defect. -/
def defects : List String := [configInvalid, itemUnreadable, engineUnavailable, engineRejected]

theorem prepare_defect {C : Type} {base : C → EngineActionConfigBase} {load : Except ConfigError C}
    {message : String} (h : W.prepare base load data = .defect message) : message ∈ defects := by
  unfold prepare at h
  split at h
  · cases h
    simp [defects]
  · split at h
    · cases h
      simp [defects]
    · split at h
      · cases h
        simp [defects]
      · dsimp only at h
        split at h <;> cases h

theorem engineFailure_eq_some {e : EngineError} (h : engineFailure e = some r) :
    r = .defect engineRejected := by
  cases e with
  | rejected message => exact (Option.some.inj h).symm
  | transient => cases h

theorem filterOutcome_state (result : SemanticFilterResult) :
    (filterOutcome result).result = result.modelDump ∧ (filterOutcome result).error = "" ∧
      (filterOutcome result).state = if result.passed then succeeded else gated := by
  unfold filterOutcome
  split <;> exact ⟨rfl, rfl, rfl⟩

/-- The run of a filter whose item is ready, from the verdict in the reply. -/
theorem semanticFilter_eq {c : SemanticFilterConfig} {payload : Hydrated}
    {content : Option (List Char)} {status : ExternalContentStatus} {model : String} {text : T}
    {verdict : JudgmentJSON}
    (hready : W.prepare SemanticFilterConfig.toEngineActionConfigBase
      (SemanticFilterConfig.modelValidate W.backend.lax config) data = .ready c payload content status)
    (hmodel : resolveModel W.backend (pinnedModel c.toEngineActionConfigBase) = .ok model)
    (hcomplete : Engine.complete W.backend
      (chatParams n model c.instructions.toList payload.item (content.getD [])) = .ok text)
    (hverdict : readVerdict W.backend text = .ok verdict) :
    W.semanticFilter n config data = some (filterOutcome (verdictResult c status verdict)) := by
  have hjudge : judge W.backend n payload.item c.instructions.toList
      (pinnedModel c.toEngineActionConfigBase) content = .ok verdict := by
    unfold judge
    rw [hmodel, Except.bind_eq_ok]
    refine ⟨model, rfl, ?_⟩
    rw [hcomplete]
    exact hverdict
  rw [semanticFilter, hready]
  dsimp only
  rw [hjudge]

/-- The run of an extraction whose item is ready, from the object in the reply. -/
theorem extract_eq {c : ExtractConfig} {payload : Hydrated} {content : Option (List Char)}
    {status : ExternalContentStatus} {model : String} {text : T} {raw : Json}
    (hready : W.prepare ExtractConfig.toEngineActionConfigBase
      (ExtractConfig.modelValidate W.backend.lax config) data = .ready c payload content status)
    (hmodel : resolveModel W.backend (pinnedModel c.toEngineActionConfigBase) = .ok model)
    (hcomplete : Engine.complete W.backend
      (extractParams n model c.fields c.instructions.toList payload.item (content.getD [])) = .ok text)
    (hload : W.backend.loads text = some raw) :
    W.extract n config data =
      some (extractOutcome c.fields status (coerceExtracted W.backend raw c.fields)) := by
  have hextract : Engine.extract W.backend n payload.item c.fields c.instructions.toList
      (pinnedModel c.toEngineActionConfigBase) content =
      .ok (coerceExtracted W.backend raw c.fields) := by
    unfold Engine.extract
    rw [hmodel, Except.bind_eq_ok]
    refine ⟨model, rfl, Except.bind_eq_ok.mpr ⟨_, hcomplete, ?_⟩⟩
    rw [hload]
    rfl
  rw [EngineWorld.extract, hready]
  dsimp only
  rw [hextract]

/-- The column takes a result whose reason has no NUL. -/
theorem filterOutcome_hasNul {result : SemanticFilterResult}
    (h : Json.textHasNul result.reason = false) : (filterOutcome result).result.hasNul = false := by
  have hstatus : ∀ status : ExternalContentStatus, Json.textHasNul status.value = false := by
    intro status
    cases status <;> decide
  rw [(filterOutcome_state result).1, SemanticFilterResult.modelDump, Json.hasNul_obj_eq_false]
  simp only [List.forall_mem_cons, Json.hasNul, h, hstatus]
  decide

/-- **The stored result of a filter decides the run's state.** A run that settles is errored with no
result and the message of a permanent defect, or it stores a score and whether the score reaches the
action's threshold, and succeeds or gates accordingly; every reader of results reads it back. -/
theorem semanticFilter_result (h : W.semanticFilter n config data = some r) :
    (r.state = errored ∧ r.result = Json.empty ∧ r.error ∈ defects) ∨
    ∃ c result, SemanticFilterConfig.modelValidate W.backend.lax config = .ok c ∧ r.error = "" ∧
      (∀ V, SemanticFilterResult.modelValidate V r.result = some result) ∧
      result.passed = decide (c.threshold ≤ result.score) ∧
      r.state = if c.threshold ≤ result.score then succeeded else gated := by
  unfold semanticFilter at h
  split at h
  · obtain rfl := Option.some.inj h
    next message hp => exact .inl ⟨rfl, rfl, prepare_defect hp⟩
  · cases h
  · next c payload content status hp =>
    split at h
    · obtain rfl := engineFailure_eq_some h
      exact .inl ⟨rfl, rfl, by simp [defects, ActionResult.defect]⟩
    · next verdict hv =>
      obtain rfl := Option.some.inj h
      obtain ⟨hresult, herror, hstate⟩ := filterOutcome_state (verdictResult c status verdict)
      refine .inr ⟨c, verdictResult c status verdict, prepare_ready hp, herror, fun V => ?_, rfl, ?_⟩
      · rw [hresult, SemanticFilterResult.modelValidate_modelDump]
      · rw [hstate]
        by_cases h : c.threshold ≤ verdict.score <;> simp [verdictResult, h]

theorem prepare_sampleFilter (reply : Js.Str) :
    (sampleWorld reply).prepare SemanticFilterConfig.toEngineActionConfigBase
      (SemanticFilterConfig.modelValidate strictMode sampleFilter.modelDump) .empty =
      .ready sampleFilter ⟨samplePromptItem, ""⟩ none .notApplicable := by
  rw [SemanticFilterConfig.modelValidate_modelDump]
  rfl

/-- A score of a half passes. -/
theorem semanticFilter_result_sample : ∃ (r : ActionResult) (c : SemanticFilterConfig)
    (result : SemanticFilterResult),
    (sampleWorld sampleReply).semanticFilter sampleNonce sampleFilter.modelDump .empty = some r ∧
      SemanticFilterConfig.modelValidate strictMode sampleFilter.modelDump = .ok c ∧ r.error = "" ∧
      SemanticFilterResult.modelValidate strictMode r.result = some result ∧ result.score = 1 / 2 ∧
      result.passed = decide (c.threshold ≤ result.score) ∧ r.state = succeeded := by
  obtain ⟨verdict, hverdict, hscore, -⟩ := verdict_of_reply (plainReader Js.exactEngine
    fun _ => .ok [⟨some (some sampleReply)⟩]) parseAgentJson_sampleReply parse_sampleReply
    plain_sampleJudgment
  have hrun := semanticFilter_eq (W := sampleWorld sampleReply) (n := sampleNonce)
    (prepare_sampleFilter sampleReply) (show _ = Except.ok "codex-acp" from rfl)
    (show _ = Except.ok sampleReply from rfl) hverdict
  have hhalf : verdict.score = 1 / 2 := by
    obtain h := Option.some.inj (hscore.symm.trans (show sampleJudgment.lookup (Js.ofString "score") =
      some (.num (.finite (1 / 2))) from rfl))
    simpa using h
  have hpassed : (verdictResult sampleFilter .notApplicable verdict).passed = true := by
    simp [verdictResult, sampleFilter, hhalf]
  obtain ⟨hresult, -, hstate⟩ := filterOutcome_state (verdictResult sampleFilter .notApplicable verdict)
  rw [hpassed, if_pos rfl] at hstate
  rcases semanticFilter_result hrun with ⟨herrored, -⟩ | ⟨c, result, hc, herror, hread, hpass, -⟩
  · rw [hstate] at herrored
    cases herrored
  · have hback := hread strictMode
    rw [hresult, SemanticFilterResult.modelValidate_modelDump] at hback
    obtain rfl := Option.some.inj hback
    refine ⟨_, c, _, hrun, hc, herror, ?_, hhalf, hpass, hstate⟩
    rw [hresult, SemanticFilterResult.modelValidate_modelDump]

/-- An extraction has exactly the declared keys. -/
theorem coerceExtracted_keys (raw : Json) (fields : List ExtractField) :
    (coerceExtracted W.backend raw fields).map (·.1) = fields.map (·.name) := by
  unfold coerceExtracted
  dsimp only
  rw [List.map_map]
  rfl

/-- **A status counts the fields that were filled.** -/
theorem extractStatus_iff (extracted : List (String × String)) {fields : List ExtractField}
    (hfields : fields ≠ []) :
    (extractStatus extracted fields = .complete ↔
      ∀ f ∈ fields, strip ((extracted.lookup f.name).getD "").toList ≠ []) ∧
    (extractStatus extracted fields = .empty ↔
      ∀ f ∈ fields, strip ((extracted.lookup f.name).getD "").toList = []) := by
  have hlen : fields.length ≠ 0 := fun h => hfields (List.length_eq_zero_iff.mp h)
  have hall := List.countP_eq_length (l := fields)
    (p := fun f => decide (strip ((extracted.lookup f.name).getD "").toList ≠ []))
  have hnone := List.countP_eq_zero (l := fields)
    (p := fun f => decide (strip ((extracted.lookup f.name).getD "").toList ≠ []))
  simp only [decide_eq_true_eq, not_not] at hall hnone
  rw [← hall, ← hnone]
  unfold extractStatus
  dsimp only
  generalize List.countP _ fields = filled
  split_ifs with hzero hfull
  · simp [hzero, hlen.symm]
  · simp [hfull, hlen]
  · simp [hzero, hfull]

/-- The column takes the result of an extraction without NUL. -/
theorem extractOutcome_hasNul {fields : List ExtractField} {status : ExternalContentStatus}
    {extracted : List (String × String)}
    (h : ∀ kv ∈ extracted, Json.textHasNul kv.1 = false ∧ Json.textHasNul kv.2 = false) :
    (extractOutcome fields status extracted).result.hasNul = false := by
  have hstatus : ∀ status : ExternalContentStatus, Json.textHasNul status.value = false := by
    intro status
    cases status <;> decide
  have hextract : ∀ status : ExtractStatus, Json.textHasNul status.value = false := by
    intro status
    cases status <;> decide
  have hmembers : Json.membersHaveNul (extracted.map fun kv => (kv.1, .str kv.2)) = false := by
    refine Json.hasNul_obj_eq_false.mpr ?_
    rw [List.forall_mem_map]
    exact h
  rw [extractOutcome, ExtractResult.modelDump, Json.hasNul_obj_eq_false]
  simp only [List.forall_mem_cons, Json.hasNul, hmembers, hstatus, hextract]
  decide

theorem extract_eq_ok {n : Nonce} {item : PromptItem} {fields : List ExtractField}
    {instructions : List Char} {model : Option String} {content : Option (List Char)}
    {extracted : List (String × String)}
    (h : Engine.extract W.backend n item fields instructions model content = .ok extracted) :
    ∃ raw, extracted = coerceExtracted W.backend raw fields := by
  unfold Engine.extract at h
  obtain ⟨_, -, h⟩ := Except.bind_eq_ok.mp h
  obtain ⟨_, -, h⟩ := Except.bind_eq_ok.mp h
  split at h
  · exact ⟨_, (Except.pure_eq_ok.mp h).symm⟩
  · cases h

/-- **The stored result of an extraction says which fields were filled.** A run that settles is errored
with no result and the message of a permanent defect, or it succeeds with exactly the declared fields,
complete if none of them is blank and empty if all are; every reader of results reads it back. -/
theorem extract_result (h : W.extract n config data = some r) :
    (r.state = errored ∧ r.result = Json.empty ∧ r.error ∈ defects) ∨
    ∃ c result, ExtractConfig.modelValidate W.backend.lax config = .ok c ∧ r.state = succeeded ∧
      r.error = "" ∧
      (∀ V, ExtractResult.modelValidate V r.result = some result) ∧
      result.extracted.map (·.1) = c.fields.map (·.name) ∧
      (result.status = .complete ↔
        ∀ f ∈ c.fields, strip ((result.extracted.lookup f.name).getD "").toList ≠ []) ∧
      (result.status = .empty ↔
        ∀ f ∈ c.fields, strip ((result.extracted.lookup f.name).getD "").toList = []) := by
  unfold extract at h
  split at h
  · next message hp =>
    obtain rfl := Option.some.inj h
    exact .inl ⟨rfl, rfl, prepare_defect hp⟩
  · cases h
  · next c payload content status hp =>
    split at h
    · obtain rfl := engineFailure_eq_some h
      exact .inl ⟨rfl, rfl, by simp [defects, ActionResult.defect]⟩
    · next extracted he =>
      obtain rfl := Option.some.inj h
      obtain ⟨raw, rfl⟩ := extract_eq_ok he
      have hstatus := extractStatus_iff (coerceExtracted W.backend raw c.fields) c.fields_valid.1
      refine .inr ⟨c, ⟨_, extractStatus _ c.fields, status⟩, prepare_ready hp, rfl, rfl, fun V => ?_,
        coerceExtracted_keys raw c.fields, hstatus⟩
      exact ExtractResult.modelValidate_modelDump V _

theorem prepare_sampleExtract (reply : Js.Str) :
    (sampleWorld reply).prepare ExtractConfig.toEngineActionConfigBase
      (ExtractConfig.modelValidate strictMode sampleExtract.modelDump) .empty =
      .ready sampleExtract ⟨samplePromptItem, ""⟩ none .notApplicable := by
  rw [ExtractConfig.modelValidate_modelDump]
  rfl

/-- A field that the reply has is stored. -/
theorem extract_result_sample : ∃ (r : ActionResult) (result : ExtractResult),
    (sampleWorld sampleExtractReply).extract sampleNonce sampleExtract.modelDump .empty = some r ∧
      r.state = succeeded ∧ r.error = "" ∧
      ExtractResult.modelValidate strictMode r.result = some result ∧
      result.extracted = [("name", "x")] ∧ result.status = .complete := by
  have hload : (sampleWorld sampleExtractReply).backend.loads sampleExtractReply =
      some (.obj [("name", .str "x")]) := by
    show readObject sampleExtractReply = _
    rw [readObject, parse_sampleExtraction]
    decide +kernel
  have hrun := extract_eq (W := sampleWorld sampleExtractReply) (n := sampleNonce)
    (prepare_sampleExtract sampleExtractReply) (show _ = Except.ok "codex-acp" from rfl)
    (show _ = Except.ok sampleExtractReply from rfl) hload
  rcases extract_result hrun with ⟨herrored, -⟩ | ⟨c, result, hc, hstate, herror, hread, -, hcomplete, -⟩
  · cases herrored
  · have hback := hread strictMode
    rw [extractOutcome, ExtractResult.modelValidate_modelDump] at hback
    obtain rfl := Option.some.inj hback
    refine ⟨_, _, hrun, hstate, herror, ExtractResult.modelValidate_modelDump _ _, rfl, ?_⟩
    rw [ExtractConfig.modelValidate_modelDump] at hc
    obtain rfl := Except.ok.inj hc
    exact hcomplete.mpr (by decide)

/-! ## Over the bridge -/

variable {H : Bridge.Host} {C : JsonReader H.engine W.backend} {payload : Hydrated}
  {content : Option (List Char)} {status : ExternalContentStatus} {model : String}
  {kvs : List (Js.Str × Js.Value)}

/-- **Every plain reply of the bridge settles the gate.** When the item is ready and the bridge answered
the request, the run succeeds or gates, the score and the reason that it stores are the reply's, and the
column takes the result. -/
theorem gate_over_bridge {c : SemanticFilterConfig}
    (hready : W.prepare SemanticFilterConfig.toEngineActionConfigBase
      (SemanticFilterConfig.modelValidate W.backend.lax config) data = .ready c payload content status)
    (hmodel : resolveModel W.backend (pinnedModel c.toEngineActionConfigBase) = .ok model)
    (hanswer : AnsweredBy H C
      (chatParams n model c.instructions.toList payload.item (content.getD [])) kvs) :
    ∃ result : SemanticFilterResult, W.semanticFilter n config data = some (filterOutcome result) ∧
      kvs.lookup (Js.ofString "score") = some (.num (.finite result.score)) ∧
      kvs.lookup (Js.ofString "reason") = some (.str (Js.ofString result.reason)) ∧
      result.passed = decide (c.threshold ≤ result.score) ∧ result.enrichmentStatus = status ∧
      (filterOutcome result).result.hasNul = false := by
  obtain ⟨raw, reply, hreply, hp, hcomplete⟩ := hanswer.reply rfl
  obtain ⟨verdict, hverdict, hscore, hreason⟩ := verdict_of_reply C hreply hp hanswer.plain
  refine ⟨verdictResult c status verdict, semanticFilter_eq hready hmodel hcomplete hverdict, hscore,
    hreason, rfl, rfl, filterOutcome_hasNul ?_⟩
  exact hanswer.no_nul hreason

/-- The turn of an agent that says a text. -/
theorem turn_text {reply : Js.Str} (h : reply.length ≤ Bridge.maxOutput) :
    Bridge.Turn [.text reply] ∧ Bridge.said [.text reply] = reply := by
  have hsaid : Bridge.said [.text reply] = reply := by
    rw [Bridge.said_cons]
    exact List.append_nil reply
  refine ⟨⟨List.forall_mem_singleton.mpr trivial, ?_⟩, hsaid⟩
  rw [hsaid]
  exact h

/-- A judgment that the bridge has passed on gates an item. -/
theorem gate_over_bridge_sample :
    ∃ result : SemanticFilterResult, (sampleWorld sampleReply).semanticFilter sampleNonce
        sampleFilter.modelDump .empty = some (filterOutcome result) ∧
      sampleJudgment.lookup (Js.ofString "score") = some (.num (.finite result.score)) ∧
      sampleJudgment.lookup (Js.ofString "reason") = some (.str (Js.ofString result.reason)) ∧
      result.passed = decide (sampleFilter.threshold ≤ result.score) ∧
      result.enrichmentStatus = .notApplicable ∧ (filterOutcome result).result.hasNul = false := by
  have hmodel : resolveModel (sampleWorld sampleReply).backend
      (pinnedModel sampleFilter.toEngineActionConfigBase) = .ok "codex-acp" := rfl
  have hascii : Js.Ascii 10 (Js.ofString "codex-acp") := by decide
  have huser : Js.Ascii 200 ((userPrompt "tools".toList samplePromptItem
      (renderLinkedArticle sampleNonce [])).flatMap Js.unitsOf) := by decide +kernel
  have hbytes := (size_samplePost (ascii_judgment hascii huser)).trans
    (show 6 * (769 + 200) + 6500 ≤ Bridge.maxRequestBytes by decide)
  obtain ⟨hturn, hsaid⟩ := turn_text (show sampleReply.length ≤ Bridge.maxOutput by decide +kernel)
  have hreply : Bridge.parseAgentJson Bridge.sampleHost.engine (Bridge.said [.text sampleReply])
      (some (toJs judgmentSchema)) = .ok sampleReply := by
    rw [hsaid]
    exact parseAgentJson_sampleReply
  have hcompletes := (posts_judgment hascii huser).completes (authorized_samplePost _)
    hbytes (by decide) rfl (messages_judgment_le (by decide)) hturn hreply []
  exact gate_over_bridge (W := sampleWorld sampleReply) (H := Bridge.sampleHost)
    (C := plainReader Js.exactEngine fun _ => .ok [⟨some (some sampleReply)⟩])
    (prepare_sampleFilter sampleReply) hmodel ⟨⟨_, _, _, posts_judgment hascii huser, hcompletes,
      parse_sampleReply, rfl⟩, plain_sampleJudgment⟩

/-- **Every plain reply of the bridge settles an extraction**: the run succeeds, under exactly the
declared fields it stores the texts that the reply has, and the column takes the result. -/
theorem extract_over_bridge {c : ExtractConfig}
    (hready : W.prepare ExtractConfig.toEngineActionConfigBase
      (ExtractConfig.modelValidate W.backend.lax config) data = .ready c payload content status)
    (hmodel : resolveModel W.backend (pinnedModel c.toEngineActionConfigBase) = .ok model)
    (hanswer : AnsweredBy H C
      (extractParams n model c.fields c.instructions.toList payload.item (content.getD [])) kvs) :
    ∃ extracted, W.extract n config data = some (extractOutcome c.fields status extracted) ∧
      List.Forall₂ (fun f kv => kv.1 = f.name ∧
        kvs.lookup (Js.ofString f.name) = some (.str (Js.ofString kv.2))) c.fields extracted ∧
      (extractOutcome c.fields status extracted).result.hasNul = false := by
  obtain ⟨raw, reply, hreply, hp, hcomplete⟩ := hanswer.reply rfl
  obtain ⟨value, hload, hfields⟩ := fields_of_reply C hreply hp hanswer.plain
  have hflip : List.Forall₂ (fun kv f => kv.1 = f.name ∧
      kvs.lookup (Js.ofString f.name) = some (.str (Js.ofString kv.2)))
      (coerceExtracted W.backend value c.fields) c.fields := hfields.flip
  refine ⟨_, extract_eq hready hmodel hcomplete hload, hfields, extractOutcome_hasNul ?_⟩
  refine ((List.forall₂_and_left _ _).mp (hflip.imp fun kv f h => ⟨?_, h⟩)).1
  rw [h.1]
  exact ⟨f.name_no_nul, hanswer.no_nul h.2⟩

/-- The request of the extraction. -/
def sampleExtractParams : ChatParams :=
  extractParams sampleNonce "codex-acp" [sampleField] [] samplePromptItem []

theorem ascii_sampleExtract : Js.Ascii 12000 (Js.exactEngine.stringify sampleExtractParams.body) := by
  have hlines : Js.Ascii 16 ((renderExtractFields [sampleField]).flatMap Js.unitsOf) := by decide +kernel
  have hrule : Js.Ascii 0 ((renderLinkedArticle sampleNonce []).systemRule.flatMap Js.unitsOf) := by
    decide
  have huser : Js.Ascii 100 (sampleExtractParams.user.flatMap Js.unitsOf) := by decide +kernel
  have hmodel : Js.Ascii 10 (Js.ofString sampleExtractParams.model) := by decide
  have hname : Js.Ascii 10 (Js.ofString sampleExtractParams.schemaName) := by decide
  have hschema : Js.Ascii 200 (Js.exactEngine.stringify (toJs sampleExtractParams.schema)) := by
    decide +kernel
  refine (ascii_body (p := sampleExtractParams) (ascii_extractSystemPrompt hrule hlines) huser hmodel
    hname hschema).mono ?_
  omega

theorem parsed_sampleSchema : (toJs (extractionSchema [sampleField])).Parsed := by
  have hspec : (fieldSpec sampleField).Parsed :=
    .obj (show [Js.ofString "type", Js.ofString "description"].Nodup by decide)
      (List.forall_mem_cons.mpr ⟨.str, List.forall_mem_singleton.mpr .str⟩)
  have hproperties : (Js.Value.obj [(Js.ofString "name", fieldSpec sampleField)]).Parsed :=
    .obj (List.nodup_singleton _) (List.forall_mem_singleton.mpr hspec)
  refine .obj (show [Js.ofString "type", Js.ofString "properties", Js.ofString "required",
    Js.ofString "additionalProperties"].Nodup by decide) ?_
  exact List.forall_mem_cons.mpr ⟨.str, List.forall_mem_cons.mpr ⟨hproperties,
    List.forall_mem_cons.mpr ⟨.arr (List.forall_mem_singleton.mpr .str),
      List.forall_mem_singleton.mpr .bool⟩⟩⟩

theorem normal_sampleSchema :
    (toJs (extractionSchema [sampleField])).normal = toJs (extractionSchema [sampleField]) := by
  have hspec : (fieldSpec sampleField).normal = fieldSpec sampleField :=
    Js.normal_obj_eq_self (show ∀ k ∈ [Js.ofString "type", Js.ofString "description"],
      Js.elementIndex k = none by decide)
      (List.forall_mem_cons.mpr ⟨rfl, List.forall_mem_singleton.mpr rfl⟩)
  have hproperties : (Js.Value.obj [(Js.ofString "name", fieldSpec sampleField)]).normal = .obj _ :=
    Js.normal_obj_eq_self (show ∀ k ∈ [Js.ofString "name"], Js.elementIndex k = none by decide)
      (List.forall_mem_singleton.mpr hspec)
  refine Js.normal_obj_eq_self (show ∀ k ∈ [Js.ofString "type", Js.ofString "properties",
    Js.ofString "required", Js.ofString "additionalProperties"], Js.elementIndex k = none by decide) ?_
  exact List.forall_mem_cons.mpr ⟨rfl, List.forall_mem_cons.mpr ⟨hproperties,
    List.forall_mem_cons.mpr ⟨rfl, List.forall_mem_singleton.mpr rfl⟩⟩⟩

theorem posts_sampleExtract :
    Posts Bridge.sampleHost (samplePost sampleExtractParams) sampleExtractParams :=
  posts_samplePost parsed_sampleSchema normal_sampleSchema ascii_sampleExtract

/-- An extraction that the bridge has passed on is stored. -/
theorem extract_over_bridge_sample :
    ∃ extracted, (sampleWorld sampleExtractReply).extract sampleNonce sampleExtract.modelDump .empty =
        some (extractOutcome [sampleField] .notApplicable extracted) ∧
      List.Forall₂ (fun f kv => kv.1 = f.name ∧
        sampleExtraction.lookup (Js.ofString f.name) = some (.str (Js.ofString kv.2)))
        [sampleField] extracted ∧
      (extractOutcome [sampleField] .notApplicable extracted).result.hasNul = false := by
  have hmodel : resolveModel (sampleWorld sampleExtractReply).backend
      (pinnedModel sampleExtract.toEngineActionConfigBase) = .ok "codex-acp" := rfl
  have hbytes := (size_samplePost ascii_sampleExtract).trans
    (show 12000 ≤ Bridge.maxRequestBytes by decide)
  obtain ⟨hturn, hsaid⟩ :=
    turn_text (show sampleExtractReply.length ≤ Bridge.maxOutput by decide +kernel)
  have hreply : Bridge.parseAgentJson Bridge.sampleHost.engine (Bridge.said [.text sampleExtractReply])
      (some (toJs (extractionSchema [sampleField]))) = .ok sampleExtractReply := by
    rw [hsaid]
    exact parseAgentJson_sampleExtraction
  have hcompletes := posts_sampleExtract.completes (authorized_samplePost _)
    hbytes (by decide) rfl (messages_extraction_le (by decide)) hturn hreply []
  exact extract_over_bridge (W := sampleWorld sampleExtractReply) (H := Bridge.sampleHost)
    (C := plainReader Js.exactEngine fun _ => .ok [⟨some (some sampleExtractReply)⟩])
    (prepare_sampleExtract sampleExtractReply) hmodel ⟨⟨_, _, _, posts_sampleExtract, hcompletes,
      parse_sampleExtraction, rfl⟩, plain_sampleExtraction⟩

end EngineWorld

end OpenMagpie
