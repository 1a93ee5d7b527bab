import OpenMagpie.Watches.Edit
import OpenMagpie.Watches.Kinds
import OpenMagpie.Watches.Trigger

/-!
# The watch as clients see it

* `watchActionWire`, `watchView`: what a read renders, secrets masked.
* `validateAction`, `validateFeedIds`, `WatchCreateSerializer.validate`: what a write accepts.
* `setFeeds`, `updateWatch`: the full-replace edit, subscriptions first and then the chain.
* `putWatch`: the request; `resubmit`: the one that submits back what was read.
-/

set_option autoImplicit false

namespace OpenMagpie

/-! ## Reads -/

/-- One action on the wire; a config that no longer types is none. -/
structure WatchActionWire where
  id : Id
  kind : String
  rank : ℕ
  config : Option Json

/-- A watch on the wire. -/
structure WatchView where
  feedIds : List Id
  actions : List WatchActionWire

variable {C : Type} (R : Registry C)

/-- The config in its member of the wire union: a built-in kind's is typed, a plugin's kept raw. -/
def wireConfig (kind : String) (config : Json) : Option Json :=
  if kind ∈ builtinKinds then
    match parseConfig R kind config with
    | .ok c => some (R.modelDump c)
    | .error _ => none
  else some config

/-- `_action_redacted`. -/
def actionRedacted (S : Redaction R) (action : WatchAction) : Option Json :=
  match loadConfig R action with
  | .ok c => some (S.redactedDump c)
  | .error _ => none

/-- `watch_action_wire`; a row of an unknown kind is skipped. -/
def watchActionWire (S : Redaction R) (action : WatchAction) : Option WatchActionWire :=
  if IsKnownKind R action.kind then
    some ⟨action.id, action.kind, action.rank,
      actionRedacted R S action >>= wireConfig R action.kind⟩
  else none

/-- `watch_view`. -/
def watchView (S : Redaction R) (watch : Watch) (w : World) : WatchView where
  feedIds := (watchFeedsOf watch w.watchFeeds).map (·.feedId)
  actions := (listForPath watch.accountId watch.initialPathId w.actions).filterMap
    (watchActionWire R S)

/-! ## Writes -/

/-- Why a request is refused: by the serializer, with the index of each bad entry, by the service, or
by the database. -/
inductive RequestError
  | feedIds (missing : List ℕ)
  | actions (errors : List (ℕ × ConfigError))
  | chain (e : ChainError)
  | database

/-- `build_watch_action_input`: a built-in kind's config is typed by its member. -/
def buildWatchActionInput (id : Option Id) (kind : String) (config : Json) :
    Except ConfigError WatchActionInput :=
  if kind ∈ builtinKinds then do
    return { id := id, kind := kind, config := R.modelDump (← parseConfig R kind config) }
  else return { id := id, kind := kind, config := config }

/-- One entry of `validate`: known kind, an object, shape and policy. -/
def validateAction (raw : WatchActionWire) : Except ConfigError WatchActionInput :=
  if IsKnownKind R raw.kind then
    match raw.config with
    | some (.obj kvs) => do
      let typed ← validateConfig R raw.kind (.obj kvs)
      buildWatchActionInput R (some raw.id) raw.kind (R.modelDump typed)
    | _ => .error (.validation "this field is required and must be an object")
  else .error (.unknownKind raw.kind)

/-- The entries of a list that a check refuses, by index. -/
def failures {α β : Type} (f : α → Except ConfigError β) (xs : List α) : List (ℕ × ConfigError) :=
  xs.zipIdx.filterMap fun (x, i) => match f x with
    | .error e => some (i, e)
    | .ok _ => none

/-- `_validate_feed_ids`: the positions of feeds that the account does not have. -/
def missingFeeds (account : Id) (feedIds : List Id) (feeds : List Feed) : List ℕ :=
  feedIds.zipIdx.filterMap fun (id, i) =>
    if ∃ f ∈ feeds, f.id = id ∧ f.accountId = account then none else some i

/-- `WatchCreateSerializer.validate`. -/
def validateWatch (account : Id) (body : WatchView) (w : World) :
    Except RequestError (List WatchActionInput) :=
  match missingFeeds account body.feedIds w.feeds with
  | [] =>
    match body.actions.mapM (validateAction R) with
    | .ok inputs => .ok inputs
    | .error _ => .error (.actions (failures (validateAction R) body.actions))
  | missing => .error (.feedIds missing)

/-- `_dedupe_preserving_order`. -/
def dedupePreservingOrder (ids : List Id) : List Id := ids.eraseDups

/-- `_set_feeds`: rows of feeds that stay keep their watermark. -/
def setFeeds (mint : Id → Id) (watch : Watch) (feedIds : List Id) (watchFeeds : List WatchFeed) :
    List WatchFeed :=
  let own := fun f : WatchFeed => f.accountId = watch.accountId ∧ f.watchId = watch.id
  let desired := dedupePreservingOrder feedIds
  let existing := (watchFeeds.filter fun f => decide (own f)).map (·.feedId)
  (watchFeeds.filter fun f => decide (¬ (own f ∧ f.feedId ∉ desired))) ++
    ((desired.filter fun id => decide (id ∉ existing)).zipIdx.map fun (id, i) =>
      ⟨mint i, watch.accountId, watch.id, id, none⟩)

/-- What happens around a request: the ids its new rows get, and whether it gets the chain lock. -/
structure RequestContext where
  mintFeed : Id → Id
  mintAction : Id → Id
  acquired : Bool

/-- `update`: two transactions, the second under the chain lock. -/
def updateWatch (ctx : RequestContext) (watch : Watch) (feedIds : List Id)
    (actions : List WatchActionInput) (w : World) : World × Except RequestError Unit :=
  let w := { w with watchFeeds := setFeeds ctx.mintFeed watch feedIds w.watchFeeds }
  let path := watch.initialPathId
  if ctx.acquired then
    match replaceChain R ctx.mintAction watch.accountId path
        (listForPath watch.accountId path w.actions) actions with
    | .ok x => (x.apply w, .ok ())
    | .error e => (w, .error (.chain e))
  else (w, .error (.chain (.concurrent path)))

/-- The body of a request goes through the serializer and, if it is accepted, the service. -/
def putWatch (ctx : RequestContext) (watch : Watch) (body : WatchView) (w : World) :
    World × Except RequestError Unit :=
  match validateWatch R watch.accountId body w with
  | .ok actions => updateWatch R ctx watch body.feedIds actions w
  | .error e => (w, .error e)

/-- A watch is read and submitted back, with its name and its `is_active`. -/
def resubmit (S : Redaction R) (ctx : RequestContext) (watch : Watch) (w : World) :
    World × Except RequestError Unit :=
  putWatch R ctx watch (watchView R S watch w) w

end OpenMagpie
