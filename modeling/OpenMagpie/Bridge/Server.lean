import OpenMagpie.Bridge.Session
import OpenMagpie.Lib.Except
import OpenMagpie.Lib.HeldSet

/-!
# The bridge's server

`integrations/acp-bridge/src/api.mjs`, `createBridge`: a request is checked, one agent at a time runs
for a model, and its reply is checked and passed on. Between two awaits nothing else runs.

* `Host.prepare`: what becomes of a request before an agent runs.
* `BridgeThread.Step`: the server, one thread for each request.
* **`bridge_runs`**: in every run, no two requests whose models are texts run one model, the busy set
  holds the models that run, and a request is refused as busy only while another one runs its model;
  **`arrays_overlap`**: two requests whose models are arrays run one agent at once.
* **`bridge_answers`**: a completion answers only a request with the token, from a turn without tool
  calls, by the checked reply.
-/

set_option autoImplicit false

namespace OpenMagpie.Bridge

open Js Interleave

/-! ## Requests and answers -/

/-- A request: the path of its URL, none where the URL does not parse, and its body as it arrives,
up to its end or a failure of the connection. -/
structure Request where
  method : String
  path : Option String
  authorization : Option Str := none
  chunks : List (List UInt8) := []
  aborted : Bool := false

/-- The body of an answer. -/
inductive Body
  | health
  | models
  | error (message : Str) (type : String)
  | completion (model : Option Value) (content : Str)

structure Response where
  status : ℕ
  body : Body

/-- The language, the token, its hash, and how bytes are decoded. -/
structure Host where
  engine : Engine
  token : Str
  digest : Str → ℕ
  decode : List UInt8 → Str

/-- `MAX_REQUEST_BYTES`. -/
def maxRequestBytes : ℕ := 32768

def Raised.ofThrown : Thrown → Raised
  | .apiError message status => .apiError message status
  | .typeError => .other

/-- The answer to a request that throws. -/
def errorResponse (e : Raised) : Response :=
  let answer (message : Str) (status : ℕ) : Response :=
    ⟨status, .error message (if 500 ≤ status then "server_error" else "invalid_request_error")⟩
  match e with
  | .apiError message status | .acpError message status =>
    answer (if status = 500 then ofString "Internal bridge error" else message) status
  | .other => answer (ofString "Internal bridge error") 500

/-- The chunks of a body, while they are not too many bytes. -/
def readChunks (aborted : Bool) : ℕ → List (List UInt8) → Except Raised (List UInt8)
  | _, [] => if aborted then .error .other else .ok []
  | size, chunk :: chunks =>
    if maxRequestBytes < size + chunk.length then
      .error (.apiError (ofString "Request too large") 413)
    else (chunk ++ ·) <$> readChunks aborted (size + chunk.length) chunks

namespace Host

variable (H : Host)

/-- The token that a header offers. -/
def offered (header : Option Str) : Str :=
  let header := header.getD []
  if ofString "Bearer " <+: header then header.drop 7 else []

/-- `authorized`. -/
def authorized (req : Request) : Bool :=
  decide (H.digest H.token = H.digest (offered req.authorization)) &&
    decide (0 < (offered req.authorization).length)

/-- `readJson`. -/
def readJson (req : Request) : Except Raised Value := do
  let bytes ← readChunks req.aborted 0 req.chunks
  match parse (H.decode bytes) with
  | some body => .ok body
  | none => .error (.apiError (ofString "Invalid JSON request") 400)

/-- The prompt of a request for a completion. -/
def readPrompt (marker : Str) (req : Request) : Except Raised Prompt := do
  let body ← H.readJson req
  (buildPrompt H.engine marker body).mapError .ofThrown

/-- A request, up to its prompt: an answer, or a prompt for an agent. -/
def prepare (marker : Str) (req : Request) : Response ⊕ Prompt :=
  match req.path with
  | none => .inl (errorResponse .other)
  | some path =>
    if req.method = "GET" ∧ path = "/healthz" then .inl ⟨200, .health⟩
    else if ! H.authorized req then
      .inl ⟨401, .error (ofString "Unauthorized") "authentication_error"⟩
    else if req.method = "GET" ∧ path = "/v1/models" then .inl ⟨200, .models⟩
    else if req.method ≠ "POST" ∨ path ≠ "/v1/chat/completions" then
      .inl ⟨404, .error (ofString "Not found") "invalid_request_error"⟩
    else match H.readPrompt marker req with
      | .error e => .inl (errorResponse e)
      | .ok prompt => .inr prompt

/-- The answer to a request whose agent has settled. -/
def agentResponse (prompt : Prompt) : Except Raised Str → Response
  | .error e => errorResponse e
  | .ok raw => match parseAgentJson H.engine raw prompt.schema with
    | .error e => errorResponse (.ofThrown e)
    | .ok content => ⟨200, .completion prompt.model content⟩

end Host

/-! ## The server -/

/-- The model by which the busy set finds a request: a text. None for an array, which `AGENTS[model]`
reads as the text of its elements, while `busy.has` compares it by identity: a member of its own, which
no other request finds. -/
def Prompt.name (prompt : Prompt) : Option Str :=
  match prompt.model with
  | some (.str name) => some name
  | _ => none

/-- The agent that `AGENTS[model]` is for a request: the one of the model as a property key. -/
def Prompt.agent (E : Engine) (prompt : Prompt) : Option Str := prompt.model.bind E.toKey

/-- The busy set, as far as it holds texts. -/
structure BridgeState where
  busy : List Str := []

/-- Where a request stands. -/
inductive BridgeThread
  | waiting (req : Request)
  | running (req : Request) (prompt : Prompt)
  | answered (req : Request) (answer : Response)

/-- `model is already processing a post`. -/
def busyResponse (name : Str) : Response :=
  errorResponse (.apiError (name ++ ofString " is already processing a post") 429)

/-- The steps of the server. -/
inductive BridgeThread.Step (H : Host) : ThreadRel BridgeState BridgeThread
  | reply {s : BridgeState} {req : Request} {marker : Str} {answer : Response}
      (ha : H.prepare marker req = .inl answer) :
      Step H (.waiting req) s s (.answered req answer)
  | refuse {s : BridgeState} {req : Request} {marker name : Str} {prompt : Prompt}
      (ha : H.prepare marker req = .inr prompt) (hn : prompt.name = some name) (hb : name ∈ s.busy) :
      Step H (.waiting req) s s (.answered req (busyResponse name))
  | start {s : BridgeState} {req : Request} {marker : Str} {prompt : Prompt}
      (ha : H.prepare marker req = .inr prompt) (hb : ∀ name ∈ prompt.name, name ∉ s.busy) :
      Step H (.waiting req) s ⟨s.busy ++ prompt.name.toList⟩ (.running req prompt)
  | finish {s : BridgeState} {req : Request} {prompt : Prompt} {spawned : Bool} {events : List Event}
      {result : Except Raised Str}
      (hr : runAcpPrompt H.engine prompt.model spawned events = some result) :
      Step H (.running req prompt) s ⟨s.busy.filter fun name => prompt.name ≠ some name⟩
        (.answered req (H.agentResponse prompt result))

/-- No request has been looked at. -/
def BridgeInit (c : Conf BridgeState BridgeThread) : Prop :=
  c.shared.busy = [] ∧ ∀ p, ∃ req, c.thread p = .waiting req

/-- The model that a request runs, if it is a text. -/
def BridgeThread.runs : BridgeThread → Option Str
  | .running _ prompt => prompt.name
  | _ => none

/-- The busy set, and the models that the requests run. -/
def busySet : HeldSet BridgeState BridgeThread Str := ⟨BridgeState.busy, BridgeThread.runs⟩

variable {H : Host} {s s' : BridgeState} {t t' : BridgeThread} {c : Conf BridgeState BridgeThread}

/-! ## The token -/

/-- No other text has the digest of the token. -/
def Host.CollisionFree (H : Host) : Prop := ∀ s, H.digest H.token = H.digest s → s = H.token

/-- Without collisions, a request is let in exactly when its header offers the token. -/
theorem authorized_iff (hfree : H.CollisionFree) (htoken : H.token ≠ []) {req : Request} :
    H.authorized req = true ↔ Host.offered req.authorization = H.token := by
  rw [Host.authorized, Bool.and_eq_true, decide_eq_true_eq, decide_eq_true_eq]
  constructor
  · rintro ⟨hdigest, -⟩
    exact hfree _ hdigest
  · intro h
    rw [h]
    exact ⟨rfl, List.length_pos_iff.mpr htoken⟩

/-! ## The busy set -/

/-- **A step takes a free model, gives one back, or leaves the set alone.** -/
theorem BridgeThread.Step.move (h : Step H t s s' t') : busySet.Move t s s' t' := by
  cases h with
  | reply ha => exact .keep rfl rfl
  | refuse ha hn hb => exact .keep rfl rfl
  | @start s req marker prompt ha hb =>
    cases hn : prompt.name with
    | none => exact .keep (List.append_nil _) hn
    | some name => exact .take name (hb name hn) rfl rfl hn
  | @finish s req prompt spawned events result hr =>
    cases hn : prompt.name with
    | none =>
      refine .keep ?_ hn.symm
      show s.busy.filter _ = s.busy
      simp
    | some name =>
      refine .drop name (fun k => ?_) hn rfl
      show k ∈ s.busy.filter _ ↔ k ∈ s.busy ∧ k ≠ name
      rw [List.mem_filter, decide_eq_true_eq, ne_eq, Option.some.injEq, ne_comm]

theorem bridge_exclusive (h : Reach (BridgeThread.Step H) BridgeInit c) : busySet.Exclusive c := by
  refine HeldSet.exclusive (fun c hc => ⟨hc.1, fun p => ?_⟩) (fun _ _ _ _ hs => hs.move) h
  obtain ⟨req, hreq⟩ := hc.2 p
  rw [hreq]
  rfl

/-! ## What is thrown -/

/-- The statuses of the checks' errors. -/
def Thrown.Listed : Thrown → Prop
  | .apiError _ status => status ∈ [400, 413, 502]
  | .typeError => True

/-- The errors of a request and of its agent: none of them says that a model is busy. -/
def Raised.Listed : Raised → Prop
  | .apiError _ status | .acpError _ status => status ∈ [400, 413, 502, 503, 504]
  | .other => True

theorem Thrown.Listed.raised {e : Thrown} (h : e.Listed) : (Raised.ofThrown e).Listed := by
  cases e with
  | typeError => trivial
  | apiError message status =>
    simp only [Thrown.Listed, Raised.Listed, Raised.ofThrown, List.mem_cons] at h ⊢
    tauto

theorem Raised.FromAgent.listed {e : Raised} (h : e.FromAgent) : e.Listed := by
  cases e with
  | other => trivial
  | apiError message status => exact h.elim
  | acpError message status =>
    simp only [Raised.FromAgent, Raised.Listed, List.mem_cons] at h ⊢
    tauto

section Listed

variable {E : Engine}

theorem throwApi_ensures {α : Type} {Q : α → Prop} {message : String} {status : ℕ}
    (h : status ∈ [400, 413, 502]) : (throwApi message status).Ensures Thrown.Listed Q := h

theorem mapM_messageText_ensures (messages : List Value) :
    (messages.mapM messageText).Ensures Thrown.Listed fun _ => True := by
  induction messages with
  | nil => trivial
  | cons message messages ih =>
    rw [List.mapM_cons]
    refine Except.Ensures.bind (Q := fun _ => True) ?_ fun text _ => ?_
    · unfold messageText
      split
      · trivial
      · exact throwApi_ensures (by decide)
    · exact ih.bind fun texts _ => trivial

/-- A refusal ends the computation. -/
theorem throwApi_bind_ensures {α β : Type} {f : α → Except Thrown β} {Q : β → Prop}
    {message : String} {status : ℕ} (h : status ∈ [400, 413, 502]) :
    (throwApi message status >>= f).Ensures Thrown.Listed Q := h

theorem readRequest_ensures (body : Value) :
    (readRequest body).Ensures Thrown.Listed fun _ => True := by
  unfold readRequest
  dsimp only
  split
  · refine (mapM_messageText_ensures _).bind fun messages _ => ?_
    split
    · exact throwApi_bind_ensures (by decide)
    · split
      · exact throwApi_bind_ensures (by decide)
      · trivial
  · exact throwApi_bind_ensures (by decide)

theorem knownModel_ensures (model : Option Value) :
    (knownModel E model).Ensures Thrown.Listed fun _ => True := by
  unfold knownModel
  split
  · trivial
  · split <;> trivial

/-- What the checks of a request throw. -/
theorem buildPrompt_ensures (marker : Str) (body : Value) :
    (buildPrompt E marker body).Ensures Thrown.Listed fun _ => True := by
  have hrest : ∀ f : Str × Option Value → Prompt,
      (readRequest body >>= fun request => pure (f request)).Ensures Thrown.Listed fun _ => True :=
    fun f => (readRequest_ensures body).bind fun request _ => trivial
  unfold buildPrompt
  dsimp only
  split
  · refine (knownModel_ensures _).bind fun known _ => ?_
    split
    · exact throwApi_bind_ensures (by decide)
    · exact hrest _
  · refine (knownModel_ensures _).bind fun known _ => ?_
    split
    · exact throwApi_bind_ensures (by decide)
    · exact hrest _
  · exact throwApi_bind_ensures (by decide)

theorem checkRequired_ensures (value properties : Value) (names : List Value) :
    (checkRequired E value properties names).Ensures Thrown.Listed fun _ => True := by
  induction names with
  | nil => trivial
  | cons name names ih =>
    unfold checkRequired
    split
    · trivial
    · split
      · exact ih
      · show 502 ∈ [400, 413, 502]
        decide

theorem checkExtra_ensures (properties : Value) (keys : List Str) :
    (checkExtra E properties keys).Ensures Thrown.Listed fun _ => True := by
  induction keys with
  | nil => trivial
  | cons key keys ih =>
    unfold checkExtra
    refine Except.Ensures.bind (Q := fun _ => True) ?_ fun has _ => ?_
    · unfold hasProperty
      split <;> trivial
    · split
      · exact ih
      · exact throwApi_ensures (by decide)

theorem checkSchema_ensures (kvs : List (Str × Value)) (schema : Value) :
    (checkSchema E kvs schema).Ensures Thrown.Listed fun _ => True := by
  unfold checkSchema
  split
  · split
    · exact throwApi_ensures (by decide)
    · refine (checkRequired_ensures _ _ _).bind fun _ _ => ?_
      split
      · exact checkExtra_ensures _ _
      · trivial
  · exact throwApi_ensures (by decide)

theorem checkScore_ensures (kvs : List (Str × Value)) :
    (checkScore kvs).Ensures Thrown.Listed fun _ => True := by
  unfold checkScore
  dsimp only
  split
  · trivial
  · split
    · exact throwApi_ensures (by decide)
    · trivial
  · exact throwApi_ensures (by decide)

/-- What the checks of a reply throw. -/
theorem parseAgentJson_ensures (raw : Str) (schema : Option Value) :
    (parseAgentJson E raw schema).Ensures Thrown.Listed fun _ => True := by
  unfold parseAgentJson
  split
  · dsimp only
    split
    · exact (checkSchema_ensures _ _).bind fun _ _ => (checkScore_ensures _).bind fun _ _ => trivial
    · exact (checkScore_ensures _).bind fun _ _ => trivial
  · exact throwApi_ensures (by decide)

/-- What is passed on is the text of an object, and its score is in range. -/
theorem parseAgentJson_eq_ok {raw content : Str} {schema : Option Value}
    (h : parseAgentJson E raw schema = .ok content) :
    ∃ kvs, parse content = some (.obj kvs) ∧ ScoreInRange kvs := by
  unfold parseAgentJson at h
  split at h
  · rename_i kvs hreply
    have hparsed : (Value.obj kvs).Parsed := parsed_of_parse hreply
    have hkeys : (kvs.map (·.1)).Nodup := by
      cases hparsed with
      | obj hkeys hkvs => exact hkeys
    have hend : checkScore kvs = .ok () ∧ E.stringify (.obj kvs) = content := by
      dsimp only at h
      split at h
      · obtain ⟨_, -, h⟩ := Except.bind_eq_ok.mp h
        obtain ⟨_, hs, h⟩ := Except.bind_eq_ok.mp h
        exact ⟨hs, Except.pure_eq_ok.mp h⟩
      · obtain ⟨_, hs, h⟩ := Except.bind_eq_ok.mp h
        exact ⟨hs, Except.pure_eq_ok.mp h⟩
    obtain ⟨hscore, rfl⟩ := hend
    refine ⟨shownMembers kvs, ?_, ?_⟩
    · rw [parse_stringify E hparsed, normal_obj]
    · rcases checkScore_cases hparsed with ⟨-, hrange⟩ | ⟨message, status, hbad, -⟩
      · exact (score_shown hkeys).mpr hrange
      · rw [hscore] at hbad
        cases hbad
  · cases h

end Listed

/-! ## Answers -/

/-- The statuses of the answers, save the one for a busy model. -/
def statuses : List ℕ := [200, 400, 401, 404, 413, 500, 502, 503, 504]

/-- What an answer is: a status of the list, and no completion. -/
def Response.Refuses (a : Response) : Prop :=
  a.status ∈ statuses ∧ ∀ model content, a.body ≠ .completion model content

/-- A completion for a request with the token: the reply of a turn without tool calls, checked
against the schema of the request, and the text of an object whose score is in range. -/
structure Completes (H : Host) (req : Request) (model : Option Value) (content : Str) : Prop where
  authorized : H.authorized req
  reply : ∃ marker prompt turn, H.readPrompt marker req = .ok prompt ∧ prompt.model = model ∧
    Turn turn ∧ parseAgentJson H.engine (said turn) prompt.schema = .ok content
  object : ∃ kvs, parse content = some (.obj kvs) ∧ ScoreInRange kvs

/-- A completion was asked for with the token itself, if no other text has its digest. -/
theorem Completes.offers {req : Request} {model : Option Value} {content : Str}
    (h : Completes H req model content) (hfree : H.CollisionFree) (htoken : H.token ≠ []) :
    Host.offered req.authorization = H.token :=
  (authorized_iff hfree htoken).mp h.authorized

/-- An answer to a request: a refusal or a report, the one for a busy model, or a completion. -/
def Response.Ok (H : Host) (req : Request) (a : Response) : Prop :=
  a.Refuses ∨ (a.status = 429 ∧ ∀ model content, a.body ≠ .completion model content) ∨
    a.status = 200 ∧ ∃ model content, a.body = .completion model content ∧ Completes H req model content

theorem errorResponse_refuses {e : Raised} (h : e.Listed) : (errorResponse e).Refuses := by
  cases e with
  | other => exact ⟨by decide, fun _ _ => by simp [errorResponse]⟩
  | apiError message status =>
    refine ⟨?_, fun _ _ => by simp [errorResponse]⟩
    simp only [Raised.Listed, List.mem_cons] at h
    show status ∈ statuses
    simp only [statuses, List.mem_cons]
    tauto
  | acpError message status =>
    refine ⟨?_, fun _ _ => by simp [errorResponse]⟩
    simp only [Raised.Listed, List.mem_cons] at h
    show status ∈ statuses
    simp only [statuses, List.mem_cons]
    tauto

theorem readChunks_ensures (aborted : Bool) (size : ℕ) (chunks : List (List UInt8)) :
    (readChunks aborted size chunks).Ensures Raised.Listed fun _ => True := by
  induction chunks generalizing size with
  | nil =>
    unfold readChunks
    split <;> trivial
  | cons chunk chunks ih =>
    unfold readChunks
    split
    · show 413 ∈ [400, 413, 502, 503, 504]
      decide
    · have hrest := ih (size + chunk.length)
      revert hrest
      cases readChunks aborted (size + chunk.length) chunks with
      | error e => exact id
      | ok bytes => exact fun _ => trivial

/-- **The chunks of a body are read when they are not too many bytes together.** -/
theorem readChunks_eq {size : ℕ} {chunks : List (List UInt8)} (hsize : size ≤ maxRequestBytes) :
    readChunks false size chunks =
      if maxRequestBytes < size + chunks.flatten.length then
        .error (.apiError (ofString "Request too large") 413)
      else .ok chunks.flatten := by
  induction chunks generalizing size with
  | nil => exact (if_neg (Nat.not_lt.mpr hsize)).symm
  | cons chunk chunks ih =>
    rw [readChunks, List.flatten_cons, List.length_append, ← Nat.add_assoc]
    by_cases hlong : maxRequestBytes < size + chunk.length
    · rw [if_pos hlong, if_pos (by omega)]
    · rw [if_neg hlong, ih (Nat.not_lt.mp hlong)]
      split_ifs
      · rfl
      · rfl

theorem readPrompt_ensures (marker : Str) (req : Request) :
    (H.readPrompt marker req).Ensures Raised.Listed fun _ => True := by
  unfold Host.readPrompt
  refine Except.Ensures.bind (Q := fun _ => True) ?_ fun body _ => ?_
  · unfold Host.readJson
    refine (readChunks_ensures _ _ _).bind fun bytes _ => ?_
    split
    · trivial
    · show 400 ∈ [400, 413, 502, 503, 504]
      decide
  · have hbuild := buildPrompt_ensures (E := H.engine) marker body
    revert hbuild
    cases buildPrompt H.engine marker body with
    | error e => exact fun h => h.raised
    | ok prompt => exact fun _ => trivial

/-- **What becomes of a request before an agent runs.** -/
theorem prepare_cases (marker : Str) (req : Request) :
    (∃ a, H.prepare marker req = .inl a ∧ a.Refuses) ∨
      ∃ prompt, H.prepare marker req = .inr prompt ∧ H.authorized req ∧
        H.readPrompt marker req = .ok prompt := by
  have hplain : ∀ status body, status ∈ statuses →
      (∀ model content, body ≠ Body.completion model content) →
      Response.Refuses ⟨status, body⟩ := fun _ _ hs hb => ⟨hs, hb⟩
  unfold Host.prepare
  cases req.path with
  | none => exact .inl ⟨_, rfl, errorResponse_refuses trivial⟩
  | some path =>
    dsimp only
    by_cases hhealth : req.method = "GET" ∧ path = "/healthz"
    · rw [if_pos hhealth]
      exact .inl ⟨_, rfl, hplain _ _ (by decide) (by simp)⟩
    rw [if_neg hhealth]
    cases hauth : H.authorized req with
    | false => exact .inl ⟨_, rfl, hplain _ _ (by decide) (by simp)⟩
    | true =>
      rw [if_neg (by simp)]
      by_cases hmodels : req.method = "GET" ∧ path = "/v1/models"
      · rw [if_pos hmodels]
        exact .inl ⟨_, rfl, hplain _ _ (by decide) (by simp)⟩
      rw [if_neg hmodels]
      by_cases hpost : req.method ≠ "POST" ∨ path ≠ "/v1/chat/completions"
      · rw [if_pos hpost]
        exact .inl ⟨_, rfl, hplain _ _ (by decide) (by simp)⟩
      rw [if_neg hpost]
      cases hprompt : H.readPrompt marker req with
      | error e =>
        exact .inl ⟨_, rfl, errorResponse_refuses ((readPrompt_ensures marker req).of_error hprompt)⟩
      | ok prompt => exact .inr ⟨prompt, rfl, rfl, rfl⟩

/-- **The answer when an agent has settled.** -/
theorem agentResponse_ok {marker : Str} {req : Request} {prompt : Prompt} {spawned : Bool}
    {events : List Event} {result : Except Raised Str} (hauth : H.authorized req)
    (hprompt : H.readPrompt marker req = .ok prompt)
    (hr : runAcpPrompt H.engine prompt.model spawned events = some result) :
    (H.agentResponse prompt result).Refuses ∨
      (H.agentResponse prompt result).status = 200 ∧ ∃ model content,
        (H.agentResponse prompt result).body = .completion model content ∧
        Completes H req model content := by
  cases result with
  | error e => exact .inl (errorResponse_refuses (runAcpPrompt_status hr).listed)
  | ok raw =>
    cases hparse : parseAgentJson H.engine raw prompt.schema with
    | error e =>
      have hlisted := (parseAgentJson_ensures raw prompt.schema).of_error hparse
      have hresponse : H.agentResponse prompt (.ok raw) = errorResponse (.ofThrown e) := by
        simp only [Host.agentResponse, hparse]
      rw [hresponse]
      exact .inl (errorResponse_refuses hlisted.raised)
    | ok content =>
      obtain ⟨-, -, turn, rest, -, hturn, rfl⟩ := runAcpPrompt_ok_iff.mp hr
      have hresponse : H.agentResponse prompt (.ok (said turn)) =
          ⟨200, .completion prompt.model content⟩ := by
        simp only [Host.agentResponse, hparse]
      rw [hresponse]
      refine .inr ⟨rfl, prompt.model, content, rfl, hauth, ?_, parseAgentJson_eq_ok hparse⟩
      exact ⟨marker, prompt, turn, hprompt, rfl, hturn, hparse⟩

/-- What is known of a request that runs, or has been answered. -/
def BridgeThread.Known (H : Host) : BridgeThread → Prop
  | .waiting _ => True
  | .running req prompt => H.authorized req ∧ ∃ marker, H.readPrompt marker req = .ok prompt
  | .answered req a => a.Ok H req

theorem BridgeThread.Step.known (h : Step H t s s' t') (ht : t.Known H) : t'.Known H := by
  cases h with
  | @reply s req marker a ha =>
    rcases prepare_cases (H := H) marker req with ⟨a', ha', hrefuses⟩ | ⟨prompt, ha', -⟩
    · obtain rfl := Sum.inl.inj (ha.symm.trans ha')
      exact .inl hrefuses
    · rw [ha] at ha'
      cases ha'
  | refuse ha hn hb => exact .inr (.inl ⟨rfl, fun _ _ => by simp [busyResponse, errorResponse]⟩)
  | @start s req marker prompt ha hb =>
    rcases prepare_cases (H := H) marker req with ⟨a', ha', -⟩ | ⟨prompt', ha', hauth, hprompt⟩
    · rw [ha] at ha'
      cases ha'
    · obtain rfl := Sum.inr.inj (ha.symm.trans ha')
      exact ⟨hauth, marker, hprompt⟩
  | finish hr =>
    obtain ⟨hauth, marker, hprompt⟩ := ht
    exact (agentResponse_ok hauth hprompt hr).imp_right .inr

/-! ## Every run -/

theorem bridge_known (h : Reach (BridgeThread.Step H) BridgeInit c) (p : ℕ) :
    (c.thread p).Known H := by
  refine (h.each (G := fun _ => True) (L := fun _ t => t.Known H) (fun c hc => ⟨trivial, fun p => ?_⟩)
    (fun _ hL hs _ => ⟨trivial, hs.known (hL _)⟩) (fun _ hL _ _ _ => hL _)).2 p
  obtain ⟨req, hreq⟩ := hc.2 p
  rw [hreq]
  trivial

/-- **A completion answers only a request with the token**, by the checked reply of a turn that ended
by itself and called no tool; every other answer is a refusal, the model list or the health. -/
theorem bridge_answers (h : Reach (BridgeThread.Step H) BridgeInit c) {p : ℕ} {req : Request}
    {a : Response} (hp : c.thread p = .answered req a) : a.Ok H req := by
  have hknown := bridge_known h p
  rw [hp] at hknown
  exact hknown

/-- A step that answers as busy found the model in the busy set. -/
theorem BridgeThread.Step.busy {req : Request} {a : Response}
    (h : Step H t s s' (.answered req a)) (ht : t.Known H) (ha : a.status = 429) :
    ∃ marker prompt name, t = .waiting req ∧ H.prepare marker req = .inr prompt ∧
      prompt.name = some name ∧ name ∈ s.busy := by
  have hlist : ¬ a.status ∈ statuses := by
    rw [ha]
    decide
  cases h with
  | @reply s req marker a hprepare =>
    rcases prepare_cases (H := H) marker req with ⟨a', ha', hrefuses⟩ | ⟨prompt, ha', -⟩
    · obtain rfl := Sum.inl.inj (hprepare.symm.trans ha')
      exact absurd hrefuses.1 hlist
    · rw [hprepare] at ha'
      cases ha'
  | refuse hprepare hn hb => exact ⟨_, _, _, rfl, hprepare, hn, hb⟩
  | finish hr =>
    obtain ⟨hauth, marker, hprompt⟩ := ht
    rcases agentResponse_ok hauth hprompt hr with hrefuses | ⟨hstatus, -⟩
    · exact absurd hrefuses.1 hlist
    · rw [ha] at hstatus
      cases hstatus

/-- **Requests exclude each other by model**, as far as their models are texts. In every run the busy
set holds exactly the models that requests run, no two requests run one model, a request is refused as
busy only while another one runs its model, and a running request can be answered when its timer has
rung. -/
theorem bridge_runs (h : Reach (BridgeThread.Step H) BridgeInit c) :
    (∀ name, name ∈ c.shared.busy ↔ ∃ p, (c.thread p).runs = some name) ∧
    (∀ p q name, (c.thread p).runs = some name → (c.thread q).runs = some name → p = q) ∧
    (∀ p s req a, BridgeThread.Step H (c.thread p) c.shared s (.answered req a) → a.status = 429 →
      ∃ marker prompt name q, H.prepare marker req = .inr prompt ∧ prompt.name = some name ∧ q ≠ p ∧
        (c.thread q).runs = some name) ∧
    ∀ p req prompt (events : List Event), c.thread p = .running req prompt → .timeout ∈ events →
      ∃ s a, BridgeThread.Step H (c.thread p) c.shared s (.answered req a) := by
  have hex := bridge_exclusive h
  refine ⟨hex.mem_iff, hex.single, fun p s req a hs ha => ?_, fun p req prompt events hp htime => ?_⟩
  · obtain ⟨marker, prompt, name, hwait, hprepare, hname, hmem⟩ := hs.busy (bridge_known h p) ha
    obtain ⟨q, hq⟩ := (hex.mem_iff name).mp hmem
    refine ⟨marker, prompt, name, q, hprepare, hname, ?_, hq⟩
    rintro rfl
    rw [hwait] at hq
    cases hq
  · have hsettles : (runAcpPrompt H.engine prompt.model true events).isSome :=
      runAcpPrompt_settles fun _ => htime
    obtain ⟨result, hr⟩ := Option.isSome_iff_exists.mp hsettles
    rw [hp]
    exact ⟨_, _, .finish hr⟩

/-! ## Models that are arrays -/

/-- A request whose model is no text starts whatever runs, and is never answered as busy. -/
theorem start_of_name_none {marker : Str} {req : Request} {prompt : Prompt}
    (ha : H.prepare marker req = .inr prompt) (hname : prompt.name = none) :
    BridgeThread.Step H (.waiting req) s s (.running req prompt) := by
  have hstart : BridgeThread.Step H (.waiting req) s ⟨s.busy ++ prompt.name.toList⟩
      (.running req prompt) := .start ha (by simp [hname])
  simpa [hname] using hstart

/-- **Two requests whose models are arrays run one agent at once**: nothing keeps the second one from
starting while the first one runs. -/
theorem arrays_overlap (h : Reach (BridgeThread.Step H) BridgeInit c) {p q : ℕ} (hpq : p ≠ q)
    {req req' : Request} {marker marker' agent : Str} {prompt prompt' : Prompt} {xs ys : List Value}
    (hp : c.thread p = .waiting req) (hq : c.thread q = .waiting req')
    (ha : H.prepare marker req = .inr prompt) (ha' : H.prepare marker' req' = .inr prompt')
    (hxs : prompt.model = some (.arr xs)) (hys : prompt'.model = some (.arr ys))
    (hagent : prompt.agent H.engine = some agent) (hagent' : prompt'.agent H.engine = some agent) :
    ∃ c', Reach (BridgeThread.Step H) BridgeInit c' ∧ c'.shared = c.shared ∧
      (∃ first, c'.thread p = .running req first ∧ first.agent H.engine = some agent) ∧
      ∃ second, c'.thread q = .running req' second ∧ second.agent H.engine = some agent := by
  have hname : prompt.name = none := by rw [Prompt.name, hxs]
  have hname' : prompt'.name = none := by rw [Prompt.name, hys]
  have h1 := h.next p (start_of_name_none (s := c.shared) ha hname) hp rfl
  have hq1 : (c.set p c.shared (.running req prompt)).thread q = .waiting req' := by
    rw [Conf.thread_set_of_ne _ hpq.symm]
    exact hq
  have h2 := h1.next q (start_of_name_none (s := c.shared) ha' hname') hq1 rfl
  refine ⟨_, h2, rfl, ⟨prompt, ?_, hagent⟩, prompt', Conf.thread_set_self _ _ _ _, hagent'⟩
  rw [Conf.thread_set_of_ne _ hpq]
  exact Conf.thread_set_self _ _ _ _

/-! ## A run -/

/-- A server with a token, that reads ASCII. -/
def sampleHost : Host where
  engine := exactEngine
  token := ofString "0123456789abcdef0123456789abcdef"
  digest s := s.foldl (fun n c => n * 0x10000 + c) 1
  decode bytes := bytes.map UInt8.toNat

/-- A request for a completion. -/
def sampleRequest : Request where
  method := "POST"
  path := some "/v1/chat/completions"
  authorization := some (ofString "Bearer 0123456789abcdef0123456789abcdef")
  chunks := [(ofString "\x7b\"model\":\"codex-acp\",\"messages\":[\x7b\"role\":\"user\",\"content\":\"x\"\x7d]\x7d").map
    UInt8.ofNat]

/-- The reply of its agent. -/
def sampleTurn : List Event := ended [.other, .text (ofString "\x7b\"score\":1\x7d")] []

-- an array whose text is an agent's name is that agent, and nothing that the busy set finds
example : (sampleHost.prepare (ofString "m") { sampleRequest with
    chunks := [(ofString "\x7b\"model\":[\"codex-acp\"],\"messages\":[\x7b\"role\":\"user\",\"content\":\"x\"\x7d]\x7d").map
      UInt8.ofNat] }).getRight?.map (fun prompt => (prompt.name, prompt.agent exactEngine)) =
    some (none, some (ofString "codex-acp")) := by
  decide +kernel

/-- Two requests for one model wait. -/
def bridgeStart : Conf BridgeState BridgeThread := ⟨{}, fun _ => .waiting sampleRequest⟩

theorem bridgeInit_start : BridgeInit bridgeStart := ⟨rfl, fun _ => ⟨_, rfl⟩⟩

theorem prepare_sample : ∃ prompt, sampleHost.prepare (ofString "m") sampleRequest = .inr prompt ∧
    prompt.model = some (.str (ofString "codex-acp")) ∧ prompt.schema = none := by
  have h : (sampleHost.prepare (ofString "m") sampleRequest).getRight?.map
      (fun prompt => (prompt.name, prompt.schema.isNone)) =
        some (some (ofString "codex-acp"), true) := by
    decide +kernel
  cases hprepare : sampleHost.prepare (ofString "m") sampleRequest with
  | inl a =>
    rw [hprepare] at h
    cases h
  | inr prompt =>
    rw [hprepare] at h
    obtain ⟨hname, hschema⟩ := Prod.mk.inj (Option.some.inj h)
    refine ⟨prompt, rfl, ?_, Option.isNone_iff_eq_none.mp hschema⟩
    unfold Prompt.name at hname
    split at hname
    · rename_i name hmodel
      rw [hmodel, Option.some.inj hname]
    · cases hname

/-- One request runs, and the other one is refused. -/
theorem bridge_runs_sample : ∃ c q name, Reach (BridgeThread.Step sampleHost) BridgeInit c ∧ q ≠ 1 ∧
    (c.thread q).runs = some name := by
  obtain ⟨prompt, hprepare, hmodel, -⟩ := prepare_sample
  have hname : prompt.name = some (ofString "codex-acp") := by
    rw [Prompt.name, hmodel]
  have h0 : Reach (BridgeThread.Step sampleHost) BridgeInit bridgeStart := .init bridgeInit_start
  have h1 := h0.next 0 (.start hprepare (fun _ _ => List.not_mem_nil)) rfl rfl
  have hbusy : BridgeThread.Step sampleHost (.waiting sampleRequest)
      ⟨[] ++ prompt.name.toList⟩ ⟨[] ++ prompt.name.toList⟩
      (.answered sampleRequest (busyResponse (ofString "codex-acp"))) :=
    .refuse hprepare hname (by simp [hname])
  obtain ⟨marker, prompt', name, q, hprepare', hname', hq, hruns⟩ :=
    (bridge_runs h1).2.2.1 1 _ _ _ hbusy rfl
  exact ⟨_, q, name, h1, hq, hruns⟩

/-- The request is answered. -/
theorem bridge_answers_sample : ∃ a : Response, a.status = 200 ∧ a.Ok sampleHost sampleRequest := by
  obtain ⟨prompt, hprepare, hmodel, hschema⟩ := prepare_sample
  have h0 : Reach (BridgeThread.Step sampleHost) BridgeInit bridgeStart := .init bridgeInit_start
  have h1 := h0.next 0 (.start hprepare (fun _ _ => List.not_mem_nil)) rfl rfl
  have hrun : runAcpPrompt sampleHost.engine prompt.model true sampleTurn =
      some (.ok (ofString "\x7b\"score\":1\x7d")) := by
    rw [hmodel]
    rfl
  have h2 := h1.again (.finish hrun)
  refine ⟨_, ?_, bridge_answers h2 (Conf.thread_set_self _ _ _ _)⟩
  have hparse : (parseAgentJson exactEngine (ofString "\x7b\"score\":1\x7d") none).isOk = true := by
    decide +kernel
  obtain ⟨content, hcontent⟩ := Except.isOk_iff.mp hparse
  simp only [Host.agentResponse, hschema, sampleHost, hcontent]

end OpenMagpie.Bridge
