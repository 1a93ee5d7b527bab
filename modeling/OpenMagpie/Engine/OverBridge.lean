import OpenMagpie.Bridge.Server
import OpenMagpie.Engine.OpenAICompat
import OpenMagpie.Lib.JsAscii

/-!
# The engine over the bridge

The engine's backend may be the bridge to local agents. The engine sends a request that the bridge
checks, and reads a reply that the bridge has checked.

* `toJs`, `ChatParams.body`: the request as the bridge reads it.
* **`buildPrompt_body`**: the bridge accepts a request for one of its agents exactly when the messages
  are short enough; **`judge_request_accepted`**: they are, when the guidance, the source and the title
  are, and then the bridge makes the prompt of every request whose body has not too many bytes.
* `JsonReader`: what the engine's JSON parsers promise.
* **`verdict_of_reply`**, **`fields_of_reply`**: every reply that the bridge passes on is a verdict, or
  an extraction with the reply's own texts.
-/

set_option autoImplicit false

namespace OpenMagpie.Engine

open Js (Str Value Number Ascii ofString)
open Bridge

/-! ## The request -/

mutual

/-- A JSON value as the bridge reads it. -/
def toJs : Json → Value
  | .null => .null
  | .bool b => .bool b
  | .num n => .num (.ofRat n)
  | .float q => .num (.ofRat q)
  | .str s => .str (ofString s)
  | .arr xs => .arr (toJsElements xs)
  | .obj kvs => .obj (toJsMembers kvs)

def toJsElements : List Json → List Value
  | [] => []
  | x :: xs => toJs x :: toJsElements xs

def toJsMembers : List (String × Json) → List (Str × Value)
  | [] => []
  | (k, x) :: kvs => (ofString k, toJs x) :: toJsMembers kvs

end

theorem toJsElements_eq (xs : List Json) : toJsElements xs = xs.map toJs := by
  induction xs with
  | nil => rfl
  | cons x xs ih => rw [toJsElements, ih, List.map_cons]

theorem toJsMembers_eq (kvs : List (String × Json)) :
    toJsMembers kvs = kvs.map fun kv => (ofString kv.1, toJs kv.2) := by
  induction kvs with
  | nil => rfl
  | cons kv kvs ih => rw [toJsMembers, ih, List.map_cons]

/-- A message of a request. -/
def chatMessage (role : String) (content : List Char) : Value :=
  .obj [(ofString "role", .str (ofString role)),
    (ofString "content", .str (content.flatMap Js.unitsOf))]

/-- The request as the bridge reads it. -/
def ChatParams.body (p : ChatParams) : Value :=
  .obj [(ofString "messages", .arr [chatMessage "system" p.system, chatMessage "user" p.user]),
    (ofString "model", .str (ofString p.model)),
    (ofString "temperature", .num (.finite 0)),
    (ofString "response_format", .obj [(ofString "type", .str (ofString "json_schema")),
      (ofString "json_schema", .obj [(ofString "name", .str (ofString p.schemaName)),
        (ofString "schema", toJs p.schema), (ofString "strict", .bool true)])])]

/-- The messages of a request, as the bridge joins them. -/
def ChatParams.messages (p : ChatParams) : Str :=
  List.intercalate (ofString "\n\n") [ofString "SYSTEM:\n" ++ p.system.flatMap Js.unitsOf,
    ofString "USER:\n" ++ p.user.flatMap Js.unitsOf]

variable {E : Js.Engine} {p : ChatParams}

theorem messageText_system (content : List Char) : messageText (chatMessage "system" content) =
    .ok (ofString "SYSTEM:\n" ++ content.flatMap Js.unitsOf) := rfl

theorem messageText_user (content : List Char) : messageText (chatMessage "user" content) =
    .ok (ofString "USER:\n" ++ content.flatMap Js.unitsOf) := rfl

theorem field_messages : field p.body "messages" =
    some (.arr [chatMessage "system" p.system, chatMessage "user" p.user]) := rfl

/-- The response format of a request. -/
def ChatParams.format (p : ChatParams) : Value :=
  .obj [(ofString "type", .str (ofString "json_schema")),
    (ofString "json_schema", .obj [(ofString "name", .str (ofString p.schemaName)),
      (ofString "schema", toJs p.schema), (ofString "strict", .bool true)])]

theorem field_format : field p.body "response_format" = some p.format := rfl

theorem format_schema : (field p.format "json_schema").bind (field · "schema") =
    some (toJs p.schema) := rfl

theorem format_type : field p.format "type" = some (.str (ofString "json_schema")) := rfl

/-- **What the bridge reads of a request.** -/
theorem readRequest_body (hschema : (toJs p.schema).truthy) : readRequest p.body =
    if maxMessageChars < p.messages.length then throwApi "Messages too large" 413
    else .ok (p.messages, some (toJs p.schema)) := by
  have hformat : ¬ (isTruthy (some p.format) ∧
      ((! ((some p.format).bind (field · "type")).any (·.isText "json_schema")) ∨
        ! isTruthy (some (toJs p.schema)))) := by
    rintro ⟨-, h | h⟩
    · rw [Option.bind_some, format_type] at h
      exact absurd h (by decide)
    · simp [isTruthy, hschema] at h
  unfold readRequest
  rw [field_messages, field_format]
  have hmap : [chatMessage "system" p.system, chatMessage "user" p.user].mapM messageText =
      .ok [ofString "SYSTEM:\n" ++ p.system.flatMap Js.unitsOf,
        ofString "USER:\n" ++ p.user.flatMap Js.unitsOf] := by
    rw [List.mapM_cons, messageText_system, List.mapM_cons, messageText_user]
    rfl
  dsimp only
  rw [hmap]
  simp only [Option.bind_some, format_schema] at hformat ⊢
  by_cases hlong : maxMessageChars < p.messages.length
  · rw [if_pos hlong]
    exact if_pos hlong
  · rw [if_neg hlong]
    exact (if_neg hlong).trans (if_neg hformat)

/-- **The bridge accepts a request of the engine exactly when its messages are short enough**, if the
model is an agent's, and it answers a longer one with 413. -/
theorem buildPrompt_body (marker : Str) (hmodel : ofString p.model ∈ agents)
    (hschema : (toJs p.schema).truthy) :
    (p.messages.length ≤ maxMessageChars ∧ ∃ prompt, buildPrompt E marker p.body = .ok prompt ∧
      prompt.model = some (.str (ofString p.model)) ∧ prompt.schema = some (toJs p.schema)) ∨
    (maxMessageChars < p.messages.length ∧
      buildPrompt E marker p.body = .error (.apiError (ofString "Messages too large") 413)) := by
  have hread := readRequest_body (p := p) hschema
  have hknown : knownModel E (field p.body "model") = .ok true := by
    have hcontains : agents.contains (ofString p.model) = true := List.contains_iff_mem.mpr hmodel
    show Except.ok (agents.contains (ofString p.model) || _) = Except.ok true
    rw [hcontains, Bool.true_or]
  obtain ⟨kvs, hbody⟩ : ∃ kvs, p.body = .obj kvs := ⟨_, rfl⟩
  have hfield : field p.body "model" = some (.str (ofString p.model)) := rfl
  rw [hbody] at hread hknown hfield ⊢
  unfold buildPrompt
  dsimp only
  rw [hknown, hread]
  by_cases hlong : maxMessageChars < p.messages.length
  · rw [if_pos hlong]
    exact .inr ⟨hlong, rfl⟩
  · rw [if_neg hlong]
    exact .inl ⟨Nat.not_lt.mp hlong, _, rfl, hfield, rfl⟩

/-- An accepted request carries its schema. -/
theorem schema_of_buildPrompt {marker : Str} {prompt : Bridge.Prompt}
    (hschema : (toJs p.schema).truthy) (h : buildPrompt E marker p.body = .ok prompt) :
    prompt.schema = some (toJs p.schema) := by
  have hread := readRequest_body (p := p) hschema
  obtain ⟨kvs, hbody⟩ : ∃ kvs, p.body = .obj kvs := ⟨_, rfl⟩
  rw [hbody] at h hread
  unfold buildPrompt at h
  dsimp only at h
  obtain ⟨known, -, h⟩ := Except.bind_eq_ok.mp h
  have hrest : ∃ messages, readRequest (.obj kvs) = .ok (messages, prompt.schema) := by
    split at h
    · obtain ⟨_, hbad, -⟩ := Except.bind_eq_ok.mp h
      cases hbad
    · obtain ⟨request, hr, h⟩ := Except.bind_eq_ok.mp h
      obtain ⟨messages, schema⟩ := request
      obtain rfl := Except.pure_eq_ok.mp h
      exact ⟨messages, hr⟩
  obtain ⟨messages, hr⟩ := hrest
  rw [hr] at hread
  split at hread
  · cases hread
  · exact (Prod.mk.inj (Except.ok.inj hread)).2

/-! ## The length of a request -/

theorem length_messages_le (p : ChatParams) :
    p.messages.length ≤ 2 * (p.system.length + p.user.length) + 16 := by
  have hs := Js.length_flatMap_unitsOf_le p.system
  have hu := Js.length_flatMap_unitsOf_le p.user
  have hlits : (ofString "SYSTEM:\n").length = 8 ∧ (ofString "\n\n").length = 2 ∧
      (ofString "USER:\n").length = 6 := by decide
  simp only [ChatParams.messages, List.intercalate, List.intersperse, List.flatten_cons,
    List.flatten_nil, List.length_append, List.length_nil, hlits.1, hlits.2.1, hlits.2.2]
  omega

variable {n : Nonce}

theorem length_markers : (openMarker n).length = 25 ∧ (closeMarker n).length = 26 := by
  have hlits : openPrefix.length = 16 ∧ closePrefix.length = 17 := by decide
  constructor
  · rw [openMarker, List.length_append, hlits.1, List.length_append, n.length_eq]
    rfl
  · rw [closeMarker, List.length_append, hlits.2, List.length_append, n.length_eq]
    rfl

set_option maxRecDepth 4000 in
theorem length_ruleEnd : ruleEnd.length = 143 := String.length_ofList

set_option maxRecDepth 4000 in
theorem length_system : systemStart.length = 195 ∧ systemEnd.length = 244 :=
  ⟨String.length_ofList, String.length_ofList⟩

theorem length_parts_le (article : List Char) :
    (renderLinkedArticle n article).systemRule.length ≤ 300 ∧
      (renderLinkedArticle n article).userSection.length ≤ (clip article).length + 60 := by
  have hlits : " The item includes a linked article between the markers ".toList.length = 56 ∧
      " and ".toList.length = 5 ∧ "\n  ".toList.length = 3 := by decide +kernel
  unfold renderLinkedArticle
  split
  · exact ⟨Nat.zero_le _, Nat.zero_le _⟩
  · simp only [List.length_append, length_markers.1, length_markers.2, hlits.1, hlits.2.1,
      hlits.2.2, String.length_toList, length_ruleEnd]
    omega

theorem length_systemPrompt (rule : List Char) : (systemPrompt rule).length = 439 + rule.length := by
  rw [systemPrompt, List.length_append, List.length_append, String.length_toList,
    String.length_toList, length_system.1, length_system.2]
  omega

theorem length_userPrompt_le (instructions : List Char) (item : PromptItem)
    (parts : ArticlePromptParts) : (userPrompt instructions item parts).length ≤
      2080 + instructions.length + item.source.length + item.title.length +
        parts.userSection.length := by
  have hnil : (userPrompt [] ⟨[], [], []⟩ ⟨[], []⟩).length = 80 := by decide +kernel
  have htake : (item.content.take contentTruncate).length ≤ 2000 := by
    rw [List.length_take, contentTruncate]
    omega
  unfold userPrompt at hnil ⊢
  simp only [List.length_append, List.take_nil, List.length_nil] at hnil ⊢
  omega

theorem messages_judgment_le {model : String} {instructions article : List Char} {item : PromptItem}
    (hshort : instructions.length + item.source.length + item.title.length ≤ 5000) :
    (chatParams n model instructions item article).messages.length ≤ maxMessageChars := by
  have hle := length_messages_le (chatParams n model instructions item article)
  have hsystem := length_systemPrompt (renderLinkedArticle n article).systemRule
  have huser := length_userPrompt_le instructions item (renderLinkedArticle n article)
  have hparts := length_parts_le (n := n) article
  have hclip := length_clip_le article
  simp only [chatParams] at hle ⊢
  rw [maxMessageChars]
  omega

/-! ## The bytes of a request -/

/-- A request to the bridge with the engine's request as its body, whole: the client writes the body, and
the bridge reads the text of its bytes. -/
structure Posts (H : Host) (req : Bridge.Request) (p : ChatParams) : Prop where
  whole : req.aborted = false
  body : Js.parse (H.decode req.chunks.flatten) = some p.body

variable {H : Host} {req : Bridge.Request}

/-- **The body is read when it has not too many bytes**, in whatever chunks it arrives. -/
theorem Posts.readPrompt (h : Posts H req p) (marker : Str) : H.readPrompt marker req =
    if maxRequestBytes < req.chunks.flatten.length then
      .error (.apiError (ofString "Request too large") 413)
    else (buildPrompt H.engine marker p.body).mapError Raised.ofThrown := by
  unfold Host.readPrompt Host.readJson
  rw [h.whole, readChunks_eq (Nat.zero_le _), Nat.zero_add]
  split_ifs
  · rfl
  · simp only [bind, Except.bind, h.body]

/-- A prompt that is made of such a request is the one of its body. -/
theorem Posts.buildPrompt {marker : Str} {prompt : Bridge.Prompt} (h : Posts H req p)
    (hprompt : H.readPrompt marker req = .ok prompt) :
    Bridge.buildPrompt H.engine marker p.body = .ok prompt := by
  rw [h.readPrompt] at hprompt
  split_ifs at hprompt
  cases hbuild : Bridge.buildPrompt H.engine marker p.body with
  | error e =>
    rw [hbuild] at hprompt
    cases hprompt
  | ok prompt' =>
    rw [hbuild] at hprompt
    exact congrArg Except.ok (Except.ok.inj hprompt)

/-- **What the bridge completes**: a request with the token that carries the engine's, by a turn whose
reply passes the check against the schema of the engine. -/
theorem Posts.completes {content : Str} {turn : List Update} (h : Posts H req p)
    (hauth : H.authorized req) (hbytes : req.chunks.flatten.length ≤ maxRequestBytes)
    (hmodel : ofString p.model ∈ agents) (hschema : (toJs p.schema).truthy)
    (hshort : p.messages.length ≤ maxMessageChars) (hturn : Bridge.Turn turn)
    (hreply : parseAgentJson H.engine (said turn) (some (toJs p.schema)) = .ok content) (marker : Str) :
    Completes H req (some (.str (ofString p.model))) content := by
  refine ⟨hauth, ?_, parseAgentJson_eq_ok hreply⟩
  rcases buildPrompt_body (E := H.engine) marker hmodel hschema with
    ⟨-, prompt, hprompt, hkept, hsame⟩ | ⟨hlong, -⟩
  · refine ⟨marker, prompt, turn, ?_, hkept, hturn, ?_⟩
    · rw [h.readPrompt, if_neg (Nat.not_lt.mpr hbytes), hprompt]
      rfl
    · rw [hsame]
      exact hreply
  · exact absurd hshort (Nat.not_le.mpr hlong)

/-! ## The body as JavaScript writes it -/

theorem parsed_chatMessage (role : String) (content : List Char) :
    (chatMessage role content).Parsed :=
  .obj (show [ofString "role", ofString "content"].Nodup by decide)
    (List.forall_mem_cons.mpr ⟨.str, List.forall_mem_singleton.mpr .str⟩)

/-- The engine's request is a value that a JSON text can give, if its schema is. -/
theorem parsed_body (hschema : (toJs p.schema).Parsed) : p.body.Parsed := by
  have hzero : Number.ofRat 0 = .finite 0 := by decide +kernel
  have hnumber : (Value.num (.finite 0)).Parsed := hzero ▸ .num
  have hjson : (Value.obj [(ofString "name", .str (ofString p.schemaName)),
      (ofString "schema", toJs p.schema), (ofString "strict", .bool true)]).Parsed := by
    refine .obj (show [ofString "name", ofString "schema", ofString "strict"].Nodup by decide) ?_
    exact List.forall_mem_cons.mpr ⟨.str, List.forall_mem_cons.mpr ⟨hschema,
      List.forall_mem_singleton.mpr .bool⟩⟩
  have hformat : p.format.Parsed := by
    refine .obj (show [ofString "type", ofString "json_schema"].Nodup by decide) ?_
    exact List.forall_mem_cons.mpr ⟨.str, List.forall_mem_singleton.mpr hjson⟩
  have hmessages : (Value.arr [chatMessage "system" p.system, chatMessage "user" p.user]).Parsed := by
    refine .arr (List.forall_mem_cons.mpr ⟨parsed_chatMessage _ _, ?_⟩)
    exact List.forall_mem_singleton.mpr (parsed_chatMessage _ _)
  refine .obj (show [ofString "messages", ofString "model", ofString "temperature",
    ofString "response_format"].Nodup by decide) ?_
  exact List.forall_mem_cons.mpr ⟨hmessages, List.forall_mem_cons.mpr ⟨.str,
    List.forall_mem_cons.mpr ⟨hnumber, List.forall_mem_singleton.mpr hformat⟩⟩⟩

/-- Its text shows it as it is, if it shows the schema so. -/
theorem normal_body (hschema : (toJs p.schema).normal = toJs p.schema) : p.body.normal = p.body := by
  have hmessage (role : String) (content : List Char) :
      (chatMessage role content).normal = chatMessage role content :=
    Js.normal_obj_eq_self (show ∀ k ∈ [ofString "role", ofString "content"], _ by decide)
      (List.forall_mem_cons.mpr ⟨rfl, List.forall_mem_singleton.mpr rfl⟩)
  have hjson : (Value.obj [(ofString "name", .str (ofString p.schemaName)),
      (ofString "schema", toJs p.schema), (ofString "strict", .bool true)]).normal = .obj _ :=
    Js.normal_obj_eq_self
      (show ∀ k ∈ [ofString "name", ofString "schema", ofString "strict"], _ by decide)
      (List.forall_mem_cons.mpr ⟨rfl, List.forall_mem_cons.mpr ⟨hschema,
      List.forall_mem_singleton.mpr rfl⟩⟩)
  have hformat : p.format.normal = p.format :=
    Js.normal_obj_eq_self (show ∀ k ∈ [ofString "type", ofString "json_schema"], _ by decide)
      (List.forall_mem_cons.mpr ⟨rfl, List.forall_mem_singleton.mpr hjson⟩)
  have hmessages : (Value.arr [chatMessage "system" p.system, chatMessage "user" p.user]).normal =
      .arr [chatMessage "system" p.system, chatMessage "user" p.user] := by
    rw [Value.normal, Js.normals, Js.normals, Js.normals, hmessage, hmessage]
  refine Js.normal_obj_eq_self (show ∀ k ∈ [ofString "messages", ofString "model",
    ofString "temperature", ofString "response_format"], _ by decide) ?_
  exact List.forall_mem_cons.mpr ⟨hmessages, List.forall_mem_cons.mpr ⟨rfl,
    List.forall_mem_cons.mpr ⟨rfl, List.forall_mem_singleton.mpr hformat⟩⟩⟩

/-- **A request whose body is the text of the engine's request carries it.** -/
theorem posts_stringify (hparsed : (toJs p.schema).Parsed)
    (hnormal : (toJs p.schema).normal = toJs p.schema) (hwhole : req.aborted = false)
    (hbytes : H.decode req.chunks.flatten = H.engine.stringify p.body) : Posts H req p where
  whole := hwhole
  body := by
    rw [hbytes, Js.parse_stringify H.engine (parsed_body hparsed), normal_body hnormal]

/-- **A judgment fits through the bridge**, for a model of its agents, when its guidance, source and
title together have at most 5000 characters, whatever the content and the article are: the bridge makes
its prompt if the body has no more bytes than it reads, and answers 413 otherwise. -/
theorem judge_request_accepted {model : String} (hmodel : ofString model ∈ agents)
    {instructions article : List Char} {item : PromptItem}
    (hshort : instructions.length + item.source.length + item.title.length ≤ 5000)
    (hposts : Posts H req (chatParams n model instructions item article)) (marker : Str) :
    (req.chunks.flatten.length ≤ maxRequestBytes ∧ ∃ prompt, H.readPrompt marker req = .ok prompt ∧
      prompt.model = some (.str (ofString model)) ∧ prompt.schema = some (toJs judgmentSchema)) ∨
    (maxRequestBytes < req.chunks.flatten.length ∧
      H.readPrompt marker req = .error (.apiError (ofString "Request too large") 413)) := by
  rw [hposts.readPrompt]
  by_cases hbytes : maxRequestBytes < req.chunks.flatten.length
  · exact .inr ⟨hbytes, if_pos hbytes⟩
  rw [if_neg hbytes]
  refine .inl ⟨Nat.not_lt.mp hbytes, ?_⟩
  rcases buildPrompt_body (E := H.engine) (p := chatParams n model instructions item article) marker
    hmodel rfl with ⟨-, prompt, hprompt, hkept⟩ | ⟨hlong, -⟩
  · exact ⟨prompt, by rw [hprompt]; rfl, hkept⟩
  · exact absurd (messages_judgment_le hshort) (Nat.not_le.mpr hlong)

/-- A request with the engine's, as ASCII, in two chunks. -/
def samplePost (p : ChatParams) : Bridge.Request where
  method := sampleRequest.method
  path := sampleRequest.path
  authorization := sampleRequest.authorization
  chunks :=
    let bytes := (Js.exactEngine.stringify p.body).map UInt8.ofNat
    [bytes.take 1000, bytes.drop 1000]

theorem flatten_samplePost (p : ChatParams) :
    (samplePost p).chunks.flatten = (Js.exactEngine.stringify p.body).map UInt8.ofNat := by
  simp [samplePost]

theorem posts_samplePost {k : ℕ} (hparsed : (toJs p.schema).Parsed)
    (hnormal : (toJs p.schema).normal = toJs p.schema)
    (hascii : Ascii k (Js.exactEngine.stringify p.body)) : Posts sampleHost (samplePost p) p := by
  refine posts_stringify hparsed hnormal rfl ?_
  rw [flatten_samplePost]
  show ((Js.exactEngine.stringify p.body).map UInt8.ofNat).map UInt8.toNat = _
  rw [List.map_map]
  refine (List.map_congr_left fun u hu => ?_).trans (List.map_id _)
  exact Nat.mod_eq_of_lt ((hascii.lt u hu).trans (by decide))

theorem authorized_samplePost (p : ChatParams) : sampleHost.authorized (samplePost p) = true :=
  show sampleHost.authorized sampleRequest = true by decide +kernel

theorem size_samplePost {k : ℕ} (hascii : Ascii k (Js.exactEngine.stringify p.body)) :
    (samplePost p).chunks.flatten.length ≤ k := by
  rw [flatten_samplePost, List.length_map]
  exact hascii.short

/-- The size of a request whose texts are ASCII. -/
theorem ascii_body {a b d : ℕ} (hsystem : Ascii a (p.system.flatMap Js.unitsOf))
    (huser : Ascii b (p.user.flatMap Js.unitsOf)) (hmodel : Ascii 10 (ofString p.model))
    (hname : Ascii 10 (ofString p.schemaName))
    (hschema : Ascii d (Js.exactEngine.stringify (toJs p.schema))) :
    Ascii (6 * (a + b) + d + 2500) (Js.exactEngine.stringify p.body) := by
  have hkey : ∀ k ∈ ["role", "content", "messages", "model", "temperature", "response_format", "type",
      "json_schema", "name", "schema", "strict"].map ofString, Ascii 20 k := by decide
  have hmessage {role : String} {content : List Char} {k : ℕ} (hrole : Ascii 6 (ofString role))
      (hcontent : Ascii k (content.flatMap Js.unitsOf)) :
      Ascii (6 * k + 300) (Js.exactEngine.stringify (chatMessage role content)) := by
    have hkeys : ∀ k ∈ [ofString "role", ofString "content"], Js.elementIndex k = none := by decide
    refine .mono (Ascii.obj _ hkeys (.cons (.member _ (hkey _ (by simp)) hrole.quote)
      (.cons (.member _ (hkey _ (by simp)) hcontent.quote) .nil))) ?_
    simp only [List.sum_cons, List.sum_nil, List.length_cons, List.length_nil]
    omega
  have hjson : Ascii (d + 600) (Js.exactEngine.stringify (.obj [(ofString "name",
      .str (ofString p.schemaName)), (ofString "schema", toJs p.schema),
      (ofString "strict", .bool true)])) := by
    have hkeys : ∀ k ∈ [ofString "name", ofString "schema", ofString "strict"],
        Js.elementIndex k = none := by decide
    have htrue : Ascii 4 (Js.exactEngine.stringify (.bool true)) := by decide
    refine .mono (Ascii.obj _ hkeys (.cons (.member _ (hkey _ (by simp)) hname.quote)
      (.cons (.member _ (hkey _ (by simp)) hschema)
        (.cons (.member _ (hkey _ (by simp)) htrue) .nil)))) ?_
    simp only [List.sum_cons, List.sum_nil, List.length_cons, List.length_nil]
    omega
  have hformat : Ascii (d + 1000) (Js.exactEngine.stringify p.format) := by
    have hkeys : ∀ k ∈ [ofString "type", ofString "json_schema"], Js.elementIndex k = none := by decide
    have htype : Ascii 11 (ofString "json_schema") := by decide
    refine .mono (Ascii.obj _ hkeys (.cons (.member _ (hkey _ (by simp)) htype.quote)
      (.cons (.member _ (hkey _ (by simp)) hjson) .nil))) ?_
    simp only [List.sum_cons, List.sum_nil, List.length_cons, List.length_nil]
    omega
  have hkeys : ∀ k ∈ [ofString "messages", ofString "model", ofString "temperature",
      ofString "response_format"], Js.elementIndex k = none := by decide
  have hzero : Ascii 1 (Js.exactEngine.stringify (.num (.finite 0))) := by decide +kernel
  refine .mono (Ascii.obj _ hkeys (.cons (.member _ (hkey _ (by simp)) (.arr _
    (.cons (hmessage (by decide) hsystem) (.cons (hmessage (by decide) huser) .nil))))
    (.cons (.member _ (hkey _ (by simp)) hmodel.quote) (.cons (.member _ (hkey _ (by simp)) hzero)
      (.cons (.member _ (hkey _ (by simp)) hformat) .nil))))) ?_
  simp only [List.sum_cons, List.sum_nil, List.length_cons, List.length_nil]
  omega

set_option maxRecDepth 4000 in
theorem ascii_judgmentDescription : Ascii 390 (ofString judgmentDescription) := by
  refine .mono (((((Js.ascii_ofList (n := 70) ?_ ?_).ofString_append
    (Js.ascii_ofList (n := 80) ?_ ?_)).ofString_append (Js.ascii_ofList (n := 80) ?_ ?_)).ofString_append
    (Js.ascii_ofList (n := 80) ?_ ?_)).ofString_append (Js.ascii_ofList (n := 80) ?_ ?_)) (by decide)
  all_goals decide

theorem ascii_judgmentSchema : Ascii 4000 (Js.exactEngine.stringify (toJs judgmentSchema)) := by
  have hkeys : ∀ k ∈ [ofString "description", ofString "properties", ofString "required",
      ofString "type", ofString "additionalProperties"], Js.elementIndex k = none := by decide
  have hkey : ∀ k ∈ ["description", "properties", "required", "type",
      "additionalProperties"].map ofString, Ascii 20 k := by decide
  have hproperties : Ascii 60 (Js.exactEngine.stringify (toJs (.obj
      [("score", .obj [("type", .str "number")]), ("reason", .obj [("type", .str "string")])]))) := by
    decide +kernel
  have hrequired : Ascii 20 (Js.exactEngine.stringify (toJs (.arr [.str "score", .str "reason"]))) := by
    decide +kernel
  have htype : Ascii 6 (ofString "object") := by decide
  have hfalse : Ascii 5 (Js.exactEngine.stringify (.bool false)) := by decide
  refine .mono (Ascii.obj _ hkeys (.cons (.member _ (hkey _ (by simp)) ascii_judgmentDescription.quote)
    (.cons (.member _ (hkey _ (by simp)) hproperties) (.cons (.member _ (hkey _ (by simp)) hrequired)
      (.cons (.member _ (hkey _ (by simp)) htype.quote)
        (.cons (.member _ (hkey _ (by simp)) hfalse) .nil)))))) ?_
  decide

theorem parsed_judgmentSchema : (toJs judgmentSchema).Parsed := by
  have htype (name : String) : (Value.obj [(ofString "type", .str (ofString name))]).Parsed :=
    .obj (by exact List.nodup_singleton _) (List.forall_mem_singleton.mpr .str)
  have hproperties : (Value.obj [(ofString "score", .obj [(ofString "type", .str (ofString "number"))]),
      (ofString "reason", .obj [(ofString "type", .str (ofString "string"))])]).Parsed :=
    .obj (show [ofString "score", ofString "reason"].Nodup by decide)
      (List.forall_mem_cons.mpr ⟨htype _, List.forall_mem_singleton.mpr (htype _)⟩)
  refine .obj (show [ofString "description", ofString "properties", ofString "required",
    ofString "type", ofString "additionalProperties"].Nodup by decide) ?_
  refine List.forall_mem_cons.mpr ⟨.str, List.forall_mem_cons.mpr ⟨hproperties, ?_⟩⟩
  refine List.forall_mem_cons.mpr ⟨.arr ?_, List.forall_mem_cons.mpr ⟨.str, ?_⟩⟩
  · exact List.forall_mem_cons.mpr ⟨.str, List.forall_mem_singleton.mpr .str⟩
  · exact List.forall_mem_singleton.mpr .bool

theorem normal_judgmentSchema : (toJs judgmentSchema).normal = toJs judgmentSchema := by
  refine Js.normal_obj_eq_self (show ∀ k ∈ [ofString "description", ofString "properties",
    ofString "required", ofString "type", ofString "additionalProperties"], _ by decide) ?_
  have htype (name : String) : (Value.obj [(ofString "type", .str (ofString name))]).normal =
      .obj [(ofString "type", .str (ofString name))] :=
    Js.normal_obj_eq_self (show ∀ k ∈ [ofString "type"], Js.elementIndex k = none by decide)
      (List.forall_mem_singleton.mpr rfl)
  have hproperties : (Value.obj [(ofString "score", .obj [(ofString "type", .str (ofString "number"))]),
      (ofString "reason", .obj [(ofString "type", .str (ofString "string"))])]).normal = .obj _ :=
    Js.normal_obj_eq_self (show ∀ k ∈ [ofString "score", ofString "reason"], Js.elementIndex k = none
      by decide) (List.forall_mem_cons.mpr ⟨htype _, List.forall_mem_singleton.mpr (htype _)⟩)
  refine List.forall_mem_cons.mpr ⟨rfl, List.forall_mem_cons.mpr ⟨hproperties, ?_⟩⟩
  exact List.forall_mem_cons.mpr ⟨rfl, List.forall_mem_cons.mpr ⟨rfl, List.forall_mem_singleton.mpr rfl⟩⟩

set_option maxRecDepth 4000 in
theorem ascii_systemPrompt {k : ℕ} {rule : List Char} (h : Ascii k (rule.flatMap Js.unitsOf)) :
    Ascii (195 + (k + 244)) ((systemPrompt rule).flatMap Js.unitsOf) := by
  refine .units_append (Js.ascii_ofList ?_ ?_) (h.units_append (Js.ascii_ofList ?_ ?_))
  all_goals decide

theorem ascii_extractSystemPrompt {k l : ℕ} {rule fieldLines : List Char}
    (hrule : Ascii k (rule.flatMap Js.unitsOf)) (hlines : Ascii l (fieldLines.flatMap Js.unitsOf)) :
    Ascii (105 + (k + (67 + (l + 121))))
      ((extractSystemPrompt rule fieldLines).flatMap Js.unitsOf) := by
  refine .units_append (Js.ascii_ofList ?_ ?_) (hrule.units_append (.units_append
    (Js.ascii_ofList ?_ ?_) (hlines.units_append (Js.ascii_ofList ?_ ?_))))
  all_goals decide

set_option maxRecDepth 4000 in
theorem ascii_systemRule (article : List Char) :
    Ascii 330 ((renderLinkedArticle sampleNonce article).systemRule.flatMap Js.unitsOf) := by
  have hmarks : Ascii 60 ((openMarker sampleNonce).flatMap Js.unitsOf) ∧
      Ascii 60 ((closeMarker sampleNonce).flatMap Js.unitsOf) := by decide +kernel
  unfold renderLinkedArticle
  split
  · decide
  · refine .mono (.units_append (Js.ascii_ofList (n := 60) ?_ ?_) (hmarks.1.units_append (.units_append
      (Js.ascii_ofList (n := 5) ?_ ?_) (hmarks.2.units_append (Js.ascii_ofList (n := 143) ?_ ?_))))) ?_
    all_goals decide

/-- The size of a judgment whose user prompt is ASCII. -/
theorem ascii_judgment {k : ℕ} {model : String} {instructions article : List Char} {item : PromptItem}
    (hmodel : Ascii 10 (ofString model)) (huser : Ascii k ((userPrompt instructions item
      (renderLinkedArticle sampleNonce article)).flatMap Js.unitsOf)) :
    Ascii (6 * (769 + k) + 6500)
      (Js.exactEngine.stringify (chatParams sampleNonce model instructions item article).body) := by
  have hname : Ascii 10 (ofString "judgment") := by decide
  refine (ascii_body (p := chatParams sampleNonce model instructions item article)
    (ascii_systemPrompt (ascii_systemRule article)) huser hmodel hname ascii_judgmentSchema).mono ?_
  omega

/-- The request of a judgment of a short item with an article, for the default agent. -/
def sampleJudgmentParams : ChatParams :=
  chatParams sampleNonce "codex-acp" "tools".toList samplePromptItem "Text".toList

theorem posts_judgment {k : ℕ} {model : String} {instructions article : List Char} {item : PromptItem}
    (hmodel : Ascii 10 (ofString model)) (huser : Ascii k ((userPrompt instructions item
      (renderLinkedArticle sampleNonce article)).flatMap Js.unitsOf)) :
    Posts sampleHost (samplePost (chatParams sampleNonce model instructions item article))
      (chatParams sampleNonce model instructions item article) :=
  posts_samplePost parsed_judgmentSchema normal_judgmentSchema (ascii_judgment hmodel huser)

/-- The bridge makes its prompt. -/
theorem judge_request_accepted_sample : ∃ prompt,
    sampleHost.readPrompt (ofString "m") (samplePost sampleJudgmentParams) = .ok prompt ∧
      prompt.model = some (.str (ofString "codex-acp")) ∧
      prompt.schema = some (toJs judgmentSchema) := by
  have huser : Ascii 200 (sampleJudgmentParams.user.flatMap Js.unitsOf) := by decide +kernel
  have hmodel : Ascii 10 (ofString "codex-acp") := by decide
  have hbytes := (size_samplePost (ascii_judgment hmodel huser)).trans
    (show 6 * (769 + 200) + 6500 ≤ maxRequestBytes by decide)
  rcases judge_request_accepted (by decide) (by decide) (posts_judgment hmodel huser) (ofString "m") with
    ⟨-, h⟩ | ⟨hlong, -⟩
  · exact h
  · exact absurd hbytes (Nat.not_le.mpr hlong)

set_option maxRecDepth 4000 in
theorem length_extract : extractStart.length = 105 ∧ extractEnd.length = 121 :=
  ⟨String.length_ofList, String.length_ofList⟩

theorem length_extractSystemPrompt (rule fieldLines : List Char) :
    (extractSystemPrompt rule fieldLines).length = 293 + rule.length + fieldLines.length := by
  have hlit : "\n\nRespond with a JSON object containing EXACTLY these string keys:\n".toList.length =
      67 := by decide +kernel
  simp only [extractSystemPrompt, List.length_append, String.length_toList, length_extract.1,
    length_extract.2]
  rw [String.length_toList] at hlit
  omega

theorem length_extractUserPrompt_le (instructions : List Char) (item : PromptItem)
    (parts : ArticlePromptParts) : (extractUserPrompt instructions item parts).length ≤
      2100 + instructions.length + item.source.length + item.title.length +
        parts.userSection.length := by
  have hnil : (extractUserPrompt [] ⟨[], [], []⟩ ⟨[], []⟩).length = 63 := by decide +kernel
  have htake : (item.content.take contentTruncate).length ≤ 2000 := by
    rw [List.length_take, contentTruncate]
    omega
  have hsection : (instructionsSection instructions).length ≤ 23 + instructions.length := by
    have hlits : "Extraction guidance:\n".toList.length = 21 ∧ "\n\n".toList.length = 2 := by decide
    unfold instructionsSection
    split
    · exact Nat.zero_le _
    · simp only [List.length_append, hlits.1, hlits.2]
      omega
  have hempty : (instructionsSection []).length = 0 := by decide
  unfold extractUserPrompt at hnil ⊢
  simp only [List.length_append, List.take_nil, List.length_nil, hempty] at hnil ⊢
  omega

/-- **An extraction fits through the bridge** when its lines of fields, too, are counted in. -/
theorem messages_extraction_le {model : String} {fields : List ExtractField}
    {instructions article : List Char} {item : PromptItem}
    (hshort : (renderExtractFields fields).length + instructions.length + item.source.length +
      item.title.length ≤ 5000) :
    (extractParams n model fields instructions item article).messages.length ≤ maxMessageChars := by
  have hle := length_messages_le (extractParams n model fields instructions item article)
  have hsystem := length_extractSystemPrompt (renderLinkedArticle n article).systemRule
    (renderExtractFields fields)
  have huser := length_extractUserPrompt_le instructions item (renderLinkedArticle n article)
  have hparts := length_parts_le (n := n) article
  have hclip := length_clip_le article
  simp only [extractParams] at hle ⊢
  rw [maxMessageChars]
  omega

/-! ## The reply, as the bridge has checked it -/

/-- The schema of a judgment. -/
def judgmentObject : ObjectSchema where
  schema := toJs judgmentSchema
  properties := [(ofString "score", .obj [(ofString "type", .str (ofString "number"))]),
    (ofString "reason", .obj [(ofString "type", .str (ofString "string"))])]
  required := [.str (ofString "score"), .str (ofString "reason")]
  type_eq := rfl
  properties_eq := rfl
  required_eq := rfl
  closed := rfl

/-- The declaration of a field. -/
def fieldSpec (f : ExtractField) : Value :=
  .obj [(ofString "type", .str (ofString "string")),
    (ofString "description", .str (ofString (String.ofList f.description)))]

/-- The schema of an extraction. -/
def extractionObject (fields : List ExtractField) : ObjectSchema where
  schema := toJs (extractionSchema fields)
  properties := toJsMembers (fields.map fun f =>
    (f.name, .obj [("type", .str "string"), ("description", .str (String.ofList f.description))]))
  required := toJsElements ((fields.map fun f =>
    (f.name, Json.obj [("type", .str "string"),
      ("description", .str (String.ofList f.description))])).map fun p => .str p.1)
  type_eq := rfl
  properties_eq := rfl
  required_eq := rfl
  closed := rfl

theorem extraction_properties (fields : List ExtractField) :
    (extractionObject fields).properties = fields.map fun f => (ofString f.name, fieldSpec f) := by
  show toJsMembers _ = _
  rw [toJsMembers_eq, List.map_map]
  rfl

theorem extraction_required (fields : List ExtractField) :
    (extractionObject fields).required = fields.map fun f => .str (ofString f.name) := by
  show toJsElements _ = _
  rw [toJsElements_eq, List.map_map, List.map_map]
  rfl

variable {raw content : Str}

/-- What the bridge passes on is the text of a value. -/
theorem stringify_of_parseAgentJson {schema : Option Value}
    (h : parseAgentJson E raw schema = .ok content) : ∃ v, content = E.stringify v := by
  unfold parseAgentJson at h
  split at h
  · rename_i kvs hreply
    split at h
    · obtain ⟨_, -, h⟩ := Except.bind_eq_ok.mp h
      obtain ⟨_, -, h⟩ := Except.bind_eq_ok.mp h
      exact ⟨_, (Except.ok.inj h).symm⟩
    · obtain ⟨_, -, h⟩ := Except.bind_eq_ok.mp h
      exact ⟨_, (Except.ok.inj h).symm⟩
  · cases h

/-- **What the bridge passes on has the required values**, under distinct keys. -/
theorem present_of_parseAgentJson {S : ObjectSchema} {kvs : List (Str × Value)}
    (h : parseAgentJson E raw (some S.schema) = .ok content)
    (hp : Js.parse content = some (.obj kvs)) :
    (∀ name ∈ S.required, Present E S.properties kvs name) ∧ ScoreInRange kvs := by
  unfold parseAgentJson at h
  split at h
  · rename_i kvs' hreply
    have hparsed : (Value.obj kvs').Parsed := Js.parsed_of_parse hreply
    have hkeys : (kvs'.map (·.1)).Nodup := by
      cases hparsed with
      | obj hkeys hkvs => exact hkeys
    rw [Option.filter_some, if_pos truthy_schema] at h
    dsimp only at h
    obtain ⟨_, hcheck, h⟩ := Except.bind_eq_ok.mp h
    obtain ⟨_, hscore, h⟩ := Except.bind_eq_ok.mp h
    obtain rfl := Except.pure_eq_ok.mp h
    rw [Js.parse_stringify E hparsed, Js.normal_obj] at hp
    obtain rfl : Js.shownMembers kvs' = kvs := Value.obj.inj (Option.some.inj hp)
    rw [checkSchema_eq] at hcheck
    obtain ⟨_, hrequired, -⟩ := Except.bind_eq_ok.mp hcheck
    have hpresent : ∀ name ∈ S.required, Present E S.properties kvs' name := by
      rcases checkRequired_cases E S.properties kvs' S.required with
        ⟨-, -, hall⟩ | ⟨message, status, hbad, -⟩ | ⟨hbad, -⟩
      · exact hall
      · rw [hrequired] at hbad
        cases hbad
      · rw [hrequired] at hbad
        cases hbad
    refine ⟨fun name hname => ?_, (score_shown hkeys).mpr ?_⟩
    · obtain ⟨key, hkey, hdeclared⟩ := hpresent name hname
      exact ⟨key, hkey, (declared_shown hkeys).mpr hdeclared⟩
    · rcases checkScore_cases hparsed with ⟨-, hrange⟩ | ⟨message, status, hbad, -⟩
      · exact hrange
      · rw [hscore] at hbad
        cases hbad
  · cases h

theorem str_of_hasType {type : String} {v : Value} (h : HasType type v) (ht : type = "string") :
    ∃ s, v = .str s := by
  cases h with
  | string => exact ⟨_, rfl⟩
  | number => exact absurd ht (by decide)
  | integer => exact absurd ht (by decide)
  | boolean => exact absurd ht (by decide)

/-- A score and a reason. -/
theorem judgment_of_parseAgentJson {kvs : List (Str × Value)}
    (h : parseAgentJson E raw (some (toJs judgmentSchema)) = .ok content)
    (hp : Js.parse content = some (.obj kvs)) : ∃ (q : ℚ) (reason : Str),
      kvs.lookup (ofString "score") = some (.num (.finite q)) ∧ 0 ≤ q ∧ q ≤ 1 ∧
        kvs.lookup (ofString "reason") = some (.str reason) := by
  obtain ⟨hpresent, hrange⟩ := present_of_parseAgentJson (S := judgmentObject) h hp
  obtain ⟨_, hkey, spec, type, v, hspec, htype, hv, hhas⟩ :=
    hpresent (.str (ofString "score")) (by simp [judgmentObject])
  obtain rfl := Option.some.inj hkey
  obtain ⟨_, hkey', spec', type', v', hspec', htype', hv', hhas'⟩ :=
    hpresent (.str (ofString "reason")) (by simp [judgmentObject])
  obtain rfl := Option.some.inj hkey'
  obtain ⟨q, rfl, hq⟩ := hrange v hv
  have hstring : type' = "string" := by
    obtain rfl := Option.some.inj (hspec'.symm.trans
      (rfl : _ = some (Value.obj [(ofString "type", .str (ofString "string"))])))
    have heq := Option.some.inj (htype'.symm.trans (rfl : _ = some (Value.str (ofString "string"))))
    exact Js.ofString_injective (Value.str.inj heq)
  obtain ⟨reason, rfl⟩ := str_of_hasType hhas' hstring
  exact ⟨q, reason, hv, hq.1, hq.2, hv'⟩

/-- A text for each field. -/
theorem fields_of_parseAgentJson {fields : List ExtractField} {kvs : List (Str × Value)}
    (h : parseAgentJson E raw (some (toJs (extractionSchema fields))) = .ok content)
    (hp : Js.parse content = some (.obj kvs)) {f : ExtractField} (hf : f ∈ fields) :
    ∃ text : Str, kvs.lookup (ofString f.name) = some (.str text) := by
  obtain ⟨hpresent, -⟩ := present_of_parseAgentJson (S := extractionObject fields) h hp
  obtain ⟨_, hkey, spec, type, v, hspec, htype, hv, hhas⟩ :=
    hpresent (.str (ofString f.name)) (by
      rw [extraction_required]
      exact List.mem_map_of_mem hf)
  obtain rfl := Option.some.inj hkey
  have hstring : type = "string" := by
    rw [extraction_properties] at hspec
    obtain ⟨before, after, heq, -⟩ := List.lookup_eq_some_iff.mp hspec
    have hmem : (ofString f.name, spec) ∈ fields.map fun f => (ofString f.name, fieldSpec f) := by
      rw [heq]
      exact List.mem_append_right _ List.mem_cons_self
    obtain ⟨f', -, hf'⟩ := List.mem_map.mp hmem
    obtain ⟨-, rfl⟩ := Prod.mk.inj hf'
    have heq := Option.some.inj (htype.symm.trans (rfl : _ = some (Value.str (ofString "string"))))
    exact Js.ofString_injective (Value.str.inj heq)
  obtain ⟨text, rfl⟩ := str_of_hasType hhas hstring
  exact ⟨text, hv⟩

/-! ## The reply, as the engine reads it -/

/-- A member whose value is a number or a text, without lone surrogates and without NUL. -/
inductive IsPlain : Str × Value → Prop
  | num (k : String) (q : ℚ) : IsPlain (ofString k, .num (.finite q))
  | str (k s : String) (hs : Json.textHasNul s = false) : IsPlain (ofString k, .str (ofString s))

/-- Such a value, and what the engine reads for it; `number` is how it reads numbers. -/
inductive Same (number : ℚ → Json) : Value → Json → Prop
  | num (q : ℚ) : Same number (.num (.finite q)) (number q)
  | str (s : String) : Same number (.str (ofString s)) (.str s)

/-- What the engine's JSON parsers promise of a text that the bridge writes: both read an object of
plain members as it is, and a number from 0 to 1 validates as itself. -/
structure JsonReader (E : Js.Engine) {T : Type} (B : Backend T) where
  deliver : Str → T
  number : ℚ → Json
  reads : ∀ v kvs, Js.parse (E.stringify v) = some (.obj kvs) → (∀ kv ∈ kvs, IsPlain kv) → ∃ kvs',
    B.loads (deliver (E.stringify v)) = some (.obj kvs') ∧
      B.validateJson (deliver (E.stringify v)) = some (.obj kvs') ∧
      List.Forall₂ (fun p q => p.1 = ofString q.1 ∧ Same number p.2 q.2) kvs kvs'
  number_float : ∀ q, 0 ≤ q → q ≤ 1 → B.lax.float (number q) = some q

/-- A key of the object is read with its value. -/
theorem get_of_forall₂ {number : ℚ → Json} {kvs : List (Str × Value)} {kvs' : List (String × Json)}
    (h : List.Forall₂ (fun p q => p.1 = ofString q.1 ∧ Same number p.2 q.2) kvs kvs') {k : String}
    {v : Value} (hv : kvs.lookup (ofString k) = some v) :
    ∃ d, (Json.obj kvs').get? k = some d ∧ Same number v d := by
  induction h with
  | nil => cases hv
  | @cons p q kvs kvs' hpq _ ih =>
    obtain ⟨key, value⟩ := p
    obtain ⟨key', value'⟩ := q
    obtain ⟨rfl, hsame⟩ := hpq
    rw [List.lookup_cons] at hv
    by_cases hk : key' = k
    · subst hk
      rw [beq_self_eq_true] at hv
      obtain rfl : value = v := Option.some.inj hv
      exact ⟨value', by simp [Json.get?], hsame⟩
    · have hne : (ofString k == ofString key') = false := by
        simpa using fun e => hk e.symm
      rw [hne] at hv
      obtain ⟨d, hd, hsame'⟩ := ih hv
      refine ⟨d, ?_, hsame'⟩
      have hkey : (key' == k) = false := by simpa using hk
      rw [← hd]
      simp [Json.get?, hkey]

variable {T : Type} {B : Backend T}

/-- **Every judgment that the bridge passes on is a verdict**: the engine reads the score and the
reason of the reply, and the score is in range. -/
theorem verdict_of_reply (C : JsonReader E B) {kvs : List (Str × Value)}
    (h : parseAgentJson E raw (some (toJs judgmentSchema)) = .ok content)
    (hp : Js.parse content = some (.obj kvs)) (hplain : ∀ kv ∈ kvs, IsPlain kv) :
    ∃ verdict, readVerdict B (C.deliver content) = .ok verdict ∧
      kvs.lookup (ofString "score") = some (.num (.finite verdict.score)) ∧
      kvs.lookup (ofString "reason") = some (.str (ofString verdict.reason)) := by
  obtain ⟨q, reason, hscore, hlow, hhigh, hreason⟩ := judgment_of_parseAgentJson h hp
  obtain ⟨v, rfl⟩ := stringify_of_parseAgentJson h
  obtain ⟨kvs', -, hvalid, hall⟩ := C.reads v kvs hp hplain
  obtain ⟨d, hd, hsame⟩ := get_of_forall₂ hall hscore
  obtain ⟨d', hd', hsame'⟩ := get_of_forall₂ hall hreason
  cases hsame
  cases hsame' with
  | str reason =>
    refine ⟨⟨q, reason, hlow, hhigh⟩, ?_, hscore, hreason⟩
    have hval : JudgmentJSON.modelValidate B.lax (.obj kvs') = some ⟨q, reason, hlow, hhigh⟩ := by
      rw [JudgmentJSON.modelValidate, hd, hd', Option.bind_eq_bind, Option.bind_some,
        C.number_float q hlow hhigh, Option.bind_eq_bind, Option.bind_some, B.lax.str_eq]
      exact dif_pos ⟨hlow, hhigh⟩
    rw [readVerdict, hvalid, Option.bind_some, hval]

/-- **Every extraction that the bridge passes on is read as it is**: the engine returns exactly the
declared fields, each with the text that the reply has for it. -/
theorem fields_of_reply (C : JsonReader E B) {fields : List ExtractField} {kvs : List (Str × Value)}
    (h : parseAgentJson E raw (some (toJs (extractionSchema fields))) = .ok content)
    (hp : Js.parse content = some (.obj kvs)) (hplain : ∀ kv ∈ kvs, IsPlain kv) :
    ∃ reply, B.loads (C.deliver content) = some reply ∧
      List.Forall₂ (fun f kv => kv.1 = f.name ∧
        kvs.lookup (ofString f.name) = some (.str (ofString kv.2)))
        fields (coerceExtracted B reply fields) := by
  obtain ⟨v, rfl⟩ := stringify_of_parseAgentJson h
  obtain ⟨kvs', hload, -, hall⟩ := C.reads v kvs hp hplain
  refine ⟨.obj kvs', hload, ?_⟩
  rw [coerceExtracted, List.forall₂_map_right_iff, List.forall₂_same]
  intro f hf
  refine ⟨rfl, ?_⟩
  obtain ⟨text, htext⟩ := fields_of_parseAgentJson h hp hf
  obtain ⟨d, hd, hsame⟩ := get_of_forall₂ hall htext
  cases hsame with
  | str s =>
    dsimp only
    rw [hd]
    exact htext

/-! ## A reader -/

/-- A plain member, with every number as a float. -/
def readMember (kv : Str × Value) : Option (String × Json) :=
  match kv.2 with
  | .num (.finite q) => (Js.toText kv.1).map fun k => (k, .float q)
  | .str s => (Js.toText kv.1).bind fun k => (Js.toText s).map fun s => (k, .str s)
  | _ => none

/-- An object of plain members. -/
def readObject (text : Str) : Option Json :=
  match Js.parse text with
  | some (.obj kvs) => (kvs.mapM readMember).map .obj
  | _ => none

theorem readMember_plain {kv : Str × Value} (h : IsPlain kv) :
    ∃ q, readMember kv = some q ∧ kv.1 = ofString q.1 ∧ Same .float kv.2 q.2 := by
  cases h with
  | num k q => exact ⟨(k, .float q), by simp [readMember, Js.toText_ofString], rfl, .num q⟩
  | str k s hs => exact ⟨(k, .str s), by simp [readMember, Js.toText_ofString], rfl, .str s⟩

theorem readMembers_plain {kvs : List (Str × Value)} (h : ∀ kv ∈ kvs, IsPlain kv) :
    ∃ kvs', kvs.mapM readMember = some kvs' ∧
      List.Forall₂ (fun p q => p.1 = ofString q.1 ∧ Same .float p.2 q.2) kvs kvs' := by
  induction kvs with
  | nil => exact ⟨[], rfl, .nil⟩
  | cons kv kvs ih =>
    obtain ⟨q, hq, hsame⟩ := readMember_plain (h kv List.mem_cons_self)
    obtain ⟨kvs', hkvs', hall⟩ := ih fun p hp => h p (List.mem_cons_of_mem _ hp)
    exact ⟨q :: kvs', by rw [List.mapM_cons, hq, hkvs']; rfl, .cons hsame hall⟩

theorem readObject_plain {text : Str} {kvs : List (Str × Value)} (hp : Js.parse text = some (.obj kvs))
    (h : ∀ kv ∈ kvs, IsPlain kv) : ∃ kvs', readObject text = some (.obj kvs') ∧
      List.Forall₂ (fun p q => p.1 = ofString q.1 ∧ Same .float p.2 q.2) kvs kvs' := by
  obtain ⟨kvs', hkvs', hall⟩ := readMembers_plain h
  exact ⟨kvs', by rw [readObject, hp]; exact congrArg (Option.map Json.obj) hkvs', hall⟩

/-- A backend behind this reader. -/
def plainBackend (create : ChatParams → Except SdkError (List (Choice Str))) : Backend Str where
  baseUrl := "http://localhost:8787/v1"
  defaultModel := "codex-acp"
  lower := id
  empty := []
  create := create
  lax := strictMode
  validateJson := readObject
  loads := readObject
  dumps _ := ""

theorem plainBackend_reads {create : ChatParams → Except SdkError (List (Choice Str))} (v : Value)
    (kvs : List (Str × Value)) (hp : Js.parse (E.stringify v) = some (.obj kvs))
    (h : ∀ kv ∈ kvs, IsPlain kv) : ∃ kvs',
      (plainBackend create).loads (E.stringify v) = some (.obj kvs') ∧
      (plainBackend create).validateJson (E.stringify v) = some (.obj kvs') ∧
      List.Forall₂ (fun p q => p.1 = ofString q.1 ∧ Same .float p.2 q.2) kvs kvs' := by
  obtain ⟨kvs', hkvs', hall⟩ := readObject_plain hp h
  exact ⟨kvs', hkvs', hkvs', hall⟩

theorem plainBackend_float {create : ChatParams → Except SdkError (List (Choice Str))} (q : ℚ)
    (_ : 0 ≤ q) (_ : q ≤ 1) : (plainBackend create).lax.float (.float q) = some q := rfl

/-- It keeps the promises. -/
def plainReader (E : Js.Engine) (create : ChatParams → Except SdkError (List (Choice Str))) :
    JsonReader E (plainBackend create) where
  deliver := id
  number := .float
  reads := plainBackend_reads
  number_float := plainBackend_float

/-! ## A completion over the bridge -/

/-- The bridge answered a request of the engine: it completed a request that carries the engine's, and
the engine's backend delivers the content, the text of the object `kvs`. -/
structure AnsweredBy (H : Host) (C : JsonReader H.engine B) (p : ChatParams)
    (kvs : List (Str × Value)) : Prop where
  completed : ∃ req model content, Posts H req p ∧ Completes H req model content ∧
    Js.parse content = some (.obj kvs) ∧ B.create p = .ok [⟨some (some (C.deliver content))⟩]
  plain : ∀ kv ∈ kvs, IsPlain kv

/-- The reply of an answer, checked against the schema of the request. -/
theorem AnsweredBy.reply {C : JsonReader H.engine B} {kvs : List (Str × Value)}
    (h : AnsweredBy H C p kvs) (hschema : (toJs p.schema).truthy) : ∃ raw reply,
      parseAgentJson H.engine raw (some (toJs p.schema)) = .ok reply ∧
        Js.parse reply = some (.obj kvs) ∧ complete B p = .ok (C.deliver reply) := by
  obtain ⟨req, model, content, hposts, hcompletes, hp, hcreate⟩ := h.completed
  obtain ⟨marker, prompt, turn, hprompt, -, -, hreply⟩ := hcompletes.reply
  rw [schema_of_buildPrompt hschema (hposts.buildPrompt hprompt)] at hreply
  exact ⟨said turn, content, hreply, hp, by rw [complete, hcreate]⟩

/-- A text of such an object has no NUL. -/
theorem AnsweredBy.no_nul {C : JsonReader H.engine B} {kvs : List (Str × Value)}
    (h : AnsweredBy H C p kvs) {k : Str} {s : String}
    (hs : kvs.lookup k = some (.str (ofString s))) : Json.textHasNul s = false := by
  obtain ⟨before, after, rfl, -⟩ := List.lookup_eq_some_iff.mp hs
  have hplain := h.plain _ (List.mem_append_right _ List.mem_cons_self)
  generalize hv : Value.str (ofString s) = v at hplain
  cases hplain with
  | num k q => cases hv
  | str k s' hs' =>
    rw [Js.ofString_injective (Value.str.inj hv)]
    exact hs'

end OpenMagpie.Engine
