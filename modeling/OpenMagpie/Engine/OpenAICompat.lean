import OpenMagpie.Engine.Prompts
import OpenMagpie.Lib.Except
import OpenMagpie.Watches.RunWire

/-!
# The engine

`engine/engines/openai_compat`: a judgment or an extraction is one chat completion, whose reply is
checked on the way back, whether or not the backend honoured the schema.

* `raiseForCompletionError`: which failure of a completion is a permanent defect.
* `ChatParams`, `judgmentSchema`, `extractionSchema`: the request.
* `judge`, `extract`, `coerceExtracted`: the two operations.
-/

set_option autoImplicit false

namespace OpenMagpie.Engine

/-! ## Failures -/

/-- What the client raises: the status errors by class, and everything else. A bad request has the
parameter that the backend names, and its text. -/
inductive SdkError
  | authentication (status : ℕ)
  | permissionDenied (status : ℕ)
  | notFound (status : ℕ)
  | badRequest (status : ℕ) (param : Option String) (text : String)
  | unprocessableEntity (status : ℕ) (param : Option String) (text : String)
  | rateLimit
  | other
  deriving DecidableEq

/-- What an engine call raises: `EngineRequestRejected`, or an error that the drain retries. -/
inductive EngineError
  | rejected (message : String)
  | transient
  deriving DecidableEq

/-- `needle in text`. -/
def isIn (needle text : String) : Bool := decide (needle.toList <:+: text.toList)

/-- `_raise_bad_request`; the text is lowered by the character database. -/
def raiseBadRequest (baseUrl : String) (status : ℕ) (param : Option String) (text : String) :
    EngineError :=
  if param = some "temperature" ∨
      (isIn "temperature" text ∧ (isIn "does not support" text ∨ isIn "unsupported" text)) then
    .rejected (s!"the LLM at {baseUrl} rejected temperature=0 " ++
      s!"({status}): this model accepts only its default temperature, so " ++
      "deterministic (greedy) scoring is unavailable and its judgments vary between " ++
      "runs on the same input. Set ENGINE_MODEL to a model that accepts temperature=0 " ++
      "for reproducible scores (some reasoning models lock temperature to their default).")
  else
    .rejected (s!"the LLM at {baseUrl} rejected the request as malformed ({status}); " ++
      "it may not support OpenAI structured outputs (json_schema) - check ENGINE_BASE_URL/ENGINE_MODEL")

/-- `raise_for_completion_error`. -/
def raiseForCompletionError (lower : String → String) (baseUrl : String) : SdkError → EngineError
  | .authentication status | .permissionDenied status =>
    .rejected s!"the LLM at {baseUrl} rejected auth ({status}); check ENGINE_API_KEY"
  | .notFound status =>
    .rejected (s!"the LLM at {baseUrl} has no such endpoint/model ({status}); " ++
      "check ENGINE_BASE_URL and ENGINE_MODEL")
  | .badRequest status param text | .unprocessableEntity status param text =>
    raiseBadRequest baseUrl status param (lower text)
  | .rateLimit | .other => .transient

/-! ## The request -/

/-- A chat request with its schema. -/
structure ChatParams where
  model : String
  system : List Char
  user : List Char
  schemaName : String
  schema : Json

/-- The docstring of `JudgmentJSON`, which its schema carries. -/
def judgmentDescription : String :=
  "LLM-output contract for any score-shaped relevance engine.\n\n" ++
  "Doubles as the structured-output schema we hand to the model (via the\n" ++
  "OpenAI \x60response_format\x60) and as the parser on the way back. Engine\n" ++
  "implementations are free to use it as-is or define their own, but the\n" ++
  "shape they map into \x60JudgmentResult\x60 is this one."

/-- `judgment_schema`. -/
def judgmentSchema : Json :=
  .obj [("description", .str judgmentDescription),
    ("properties", .obj [("score", .obj [("type", .str "number")]),
      ("reason", .obj [("type", .str "string")])]),
    ("required", .arr [.str "score", .str "reason"]), ("type", .str "object"),
    ("additionalProperties", .bool false)]

/-- `_strict_object`. -/
def strictObject (properties : List (String × Json)) : Json :=
  .obj [("type", .str "object"), ("properties", .obj properties),
    ("required", .arr (properties.map fun p => .str p.1)), ("additionalProperties", .bool false)]

/-- `extraction_schema`. -/
def extractionSchema (fields : List ExtractField) : Json :=
  strictObject (fields.map fun f =>
    (f.name, .obj [("type", .str "string"), ("description", .str (String.ofList f.description))]))

/-- `render_extract_fields`. -/
def renderExtractFields (fields : List ExtractField) : List Char :=
  List.intercalate ['\n'] (fields.map fun f =>
    "- ".toList ++ (f.name.toList ++ (": ".toList ++ f.description)))

/-- `_chat_params`. -/
def chatParams (n : Nonce) (model : String) (instructions : List Char) (item : PromptItem)
    (externalContent : List Char) : ChatParams :=
  let parts := renderLinkedArticle n externalContent
  { model := model
    system := systemPrompt parts.systemRule
    user := userPrompt instructions item parts
    schemaName := "judgment"
    schema := judgmentSchema }

/-- `_extract_params`. -/
def extractParams (n : Nonce) (model : String) (fields : List ExtractField)
    (instructions : List Char) (item : PromptItem) (externalContent : List Char) : ChatParams :=
  let parts := renderLinkedArticle n externalContent
  { model := model
    system := extractSystemPrompt parts.systemRule (renderExtractFields fields)
    user := extractUserPrompt instructions item parts
    schemaName := "extraction"
    schema := extractionSchema fields }

/-! ## The reply -/

/-- A choice of a completion: its message, and the message's content. -/
structure Choice (T : Type) where
  message : Option (Option T)

/-- The backend and the readers of its replies: what a completion does, the two JSON parsers, the
coercions of the validation library, and the compact dump. `T` is the type of a text. -/
structure Backend (T : Type) where
  baseUrl : String
  defaultModel : String
  lower : String → String
  empty : T
  create : ChatParams → Except SdkError (List (Choice T))
  lax : LaxMode
  validateJson : T → Option Json
  loads : T → Option Json
  dumps : Json → String

/-- The reply's contract. -/
structure JudgmentJSON where
  score : ℚ
  reason : String
  score_bounds : 0 ≤ score ∧ score ≤ 1

section Calls

variable {T : Type} (B : Backend T)

/-- `_resolve_model`. -/
def resolveModel (model : Option String) : Except EngineError String :=
  let resolved := match model with
    | some model => if model = "" then B.defaultModel else model
    | none => B.defaultModel
  if resolved = "" then
    .error (.rejected ("no model configured: set ENGINE_MODEL (or the action's engine.model). " ++
      "List your LLM's models with: python -m engine.scripts.probe <ENGINE_BASE_URL>"))
  else .ok resolved

/-- `_complete`: the text of the first choice. -/
def complete (params : ChatParams) : Except EngineError T :=
  match B.create params with
  | .error e => .error (raiseForCompletionError B.lower B.baseUrl e)
  | .ok choices => .ok <| match choices with
    | { message := some (some content) } :: _ => content
    | _ => B.empty

/-- `JudgmentJSON.model_validate`. -/
def JudgmentJSON.modelValidate (V : LaxMode) (d : Json) : Option JudgmentJSON :=
  match d.get? "score" >>= V.float, d.get? "reason" >>= V.str with
  | some score, some reason =>
    if h : 0 ≤ score ∧ score ≤ 1 then some ⟨score, reason, h⟩ else none
  | _, _ => none

/-- The verdict in a reply. -/
def readVerdict (content : T) : Except EngineError JudgmentJSON :=
  match (B.validateJson content).bind (JudgmentJSON.modelValidate B.lax) with
  | some verdict => .ok verdict
  | none => .error .transient

/-- `judge`. -/
def judge (n : Nonce) (item : PromptItem) (instructions : List Char) (model : Option String)
    (externalContent : Option (List Char)) : Except EngineError JudgmentJSON := do
  let model ← resolveModel B model
  let content ← complete B (chatParams n model instructions item (externalContent.getD []))
  readVerdict B content

/-- One value of `_coerce_extracted`. -/
def coerceValue : Option Json → String
  | none | some .null => ""
  | some (.str s) => s
  | some value => B.dumps value

/-- `_coerce_extracted`. -/
def coerceExtracted (raw : Json) (fields : List ExtractField) : List (String × String) :=
  let mapping := match raw with
    | .obj kvs => Json.obj kvs
    | _ => .obj []
  fields.map fun f => (f.name, coerceValue B (mapping.get? f.name))

/-- `extract`. -/
def extract (n : Nonce) (item : PromptItem) (fields : List ExtractField) (instructions : List Char)
    (model : Option String) (externalContent : Option (List Char)) :
    Except EngineError (List (String × String)) := do
  let model ← resolveModel B model
  let content ← complete B
    (extractParams n model fields instructions item (externalContent.getD []))
  match B.loads content with
  | some raw => return coerceExtracted B raw fields
  | none => .error .transient

end Calls

end OpenMagpie.Engine
