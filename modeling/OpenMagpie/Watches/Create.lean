import OpenMagpie.Watches.Delete
import OpenMagpie.Watches.ReplaceChain
import OpenMagpie.Watches.Secrets
import OpenMagpie.Watches.Service

/-!
# Creating a watch

`WatchService.create` writes the watch, its path and its subscriptions in one transaction, and the
chain of the path in a second one, under the chain's lock.

* `createWatch`, `postWatch`: the service's create, and the request.
* `AllOrNothing`: a watch with the submitted chain, or no new row.
* `Creatable`, `CreateContext.Takes`: what `replace_chain` asks of an action of a new chain, and the
  database of its row.
* **`create_all_or_nothing_iff`**: a create is all or nothing exactly when its first transaction is
  refused, or it gets the lock, every submitted action can be created and the database takes its row.
* **`create_leaves_watch`**: an action with an id is refused, and so is a config with a NUL; the watch
  stays.
-/

set_option autoImplicit false

namespace OpenMagpie

variable {C : Type} (R : Registry C)

/-! ## The operation -/

/-- What happens around a create: the ids of the new watch and of its path, too; whether the database
takes the first transaction, and an action's row of a kind and a config. -/
structure CreateContext extends RequestContext where
  watchId : Id
  pathId : Id
  takesAggregate : Bool
  takes : String → Json → Bool

/-- The tables of the watch aggregate. -/
structure AggregateStore where
  world : World := {}
  paths : List WatchPath := []

/-- The first transaction of `create`: the watch, its path, and a subscription for each feed. -/
def createAggregate (ctx : CreateContext) (account : Id) (feedIds : List Id) (s : AggregateStore) :
    AggregateStore where
  world := { s.world with
    watches := s.world.watches ++ [⟨ctx.watchId, account, ctx.pathId⟩]
    watchFeeds := s.world.watchFeeds ++ (dedupePreservingOrder feedIds).zipIdx.map fun (id, i) =>
      ⟨ctx.mintFeed i, account, ctx.watchId, id, none⟩ }
  paths := s.paths ++ [⟨ctx.pathId, account, ctx.watchId⟩]

/-- `create`: the aggregate, and then the chain under its lock. A transaction that the database refuses
is rolled back: the aggregate's, and the chain's when its `bulk_create` has a row that is not taken. -/
def createWatch (ctx : CreateContext) (account : Id) (feedIds : List Id)
    (actions : List WatchActionInput) (s : AggregateStore) :
    AggregateStore × Except RequestError Watch :=
  if ctx.takesAggregate then
    let s := createAggregate ctx account feedIds s
    if ctx.acquired then
      match replaceChain R ctx.mintAction account ctx.pathId
          (listForPath account ctx.pathId s.world.actions) actions with
      | .ok x =>
        if x.created.all fun row => ctx.takes row.kind row.config then
          ({ s with world := x.apply s.world }, .ok ⟨ctx.watchId, account, ctx.pathId⟩)
        else (s, .error .database)
      | .error e => (s, .error (.chain e))
    else (s, .error (.chain (.concurrent ctx.pathId)))
  else (s, .error .database)

/-- `post`: the serializer, and then the service. -/
def postWatch (ctx : CreateContext) (account : Id) (body : WatchView) (s : AggregateStore) :
    AggregateStore × Except RequestError Watch :=
  match validateWatch R account body s.world with
  | .ok actions => createWatch R ctx account body.feedIds actions s
  | .error e => (s, .error e)

/-! ## What is asked of it -/

/-- The row is the action `spec`: its kind, and its validated config as it is dumped. -/
def IsSubmitted (spec : WatchActionInput) (row : WatchAction) : Prop :=
  row.kind = spec.kind ∧
    ∃ c, validateConfig R spec.kind spec.config = .ok c ∧ row.config = R.modelDump c

/-- The chain of a path is exactly `actions`: one row for each, in their order, at dense ranks. -/
structure HasChain (account path : Id) (actions : List WatchActionInput) (w : World) : Prop where
  rows : List.Forall₂ (IsSubmitted R) actions (listForPath account path w.actions)
  ranks : (listForPath account path w.actions).map (·.rank) = List.range actions.length

/-- No watch, path, subscription or action is new. -/
structure NothingNew (s s' : AggregateStore) : Prop where
  watches : s'.world.watches ⊆ s.world.watches
  paths : s'.paths ⊆ s.paths
  watchFeeds : s'.world.watchFeeds ⊆ s.world.watchFeeds
  actions : s'.world.actions ⊆ s.world.actions

/-- The watch is there with the submitted chain, or the create raised and left nothing. -/
def AllOrNothing (actions : List WatchActionInput) (s : AggregateStore) :
    AggregateStore × Except RequestError Watch → Prop
  | (s', .ok watch) => watch ∈ s'.world.watches ∧
      HasChain R watch.accountId watch.initialPathId actions s'.world
  | (s', .error _) => NothingNew s s'

/-- `replace_chain` can create the action: it names no row, masks no secret, and its config is
valid. -/
structure Creatable (spec : WatchActionInput) : Prop where
  id : spec.id = none
  spelled : submittedHasMaskedSecret R spec = false
  valid : ∃ c, validateConfig R spec.kind spec.config = .ok c

variable {R} in
/-- The database takes the row of the action. -/
def CreateContext.Takes (ctx : CreateContext) (spec : WatchActionInput) : Prop :=
  ∀ c, validateConfig R spec.kind spec.config = .ok c → ctx.takes spec.kind (R.modelDump c) = true

/-- What a create finds: unique action ids, and nothing under the ids it is given. -/
structure CreateContext.Fresh (ctx : CreateContext) (s : AggregateStore) : Prop where
  ids : (s.world.actions.map (·.id)).Nodup
  mint : Function.Injective ctx.mintAction
  new : ∀ i, ∀ a ∈ s.world.actions, a.id ≠ ctx.mintAction i
  path : ∀ a ∈ s.world.actions, a.pathId ≠ ctx.pathId
  watch : ∀ v ∈ s.world.watches, v.id ≠ ctx.watchId

/-! ## A chain from nothing -/

variable {R} {account path : Id} {mint : Id → Id} {specs : List WatchActionInput}
  {spec : WatchActionInput} {acc acc' : Reconcile} {x : ChainWrite}

/-- Without a prior config an edit is a write. -/
theorem mergeConfig_none (kind : String) (data : Json) :
    mergeConfig R kind data none = validateConfig R kind data := by
  rw [mergeConfig, validateConfig]
  cases parseConfig R kind data <;> rfl

/-- **When the loop takes an action of a new chain.** -/
theorem exists_reconcileOne_iff :
    (∃ acc', reconcileOne R mint account path [] acc spec = .ok acc') ↔ Creatable R spec := by
  constructor
  · rintro ⟨acc', h⟩
    obtain ⟨row, prior, merged, hmask, hprior, hm, ⟨a, ha, -⟩ | ⟨rfl, hid, -⟩⟩ := reconcileOne_eq_ok h
    · cases ha
    · obtain rfl : prior = none := (Except.pure_eq_ok.mp (Except.mapError_eq_ok.mp hprior)).symm
      refine ⟨hid, ?_, merged, mergeConfig_none spec.kind spec.config ▸ hm⟩
      rw [refuseMasked] at hmask
      split_ifs at hmask with hs
      simpa using hs
  · rintro ⟨hid, hs, c, hc⟩
    refine ⟨acc.create R mint account path spec.kind c, ?_⟩
    rw [← mergeConfig_none] at hc
    simp only [reconcileOne, hid, resolvePrior, refuseMasked, loadPrior, hs, hc, bind, Except.bind,
      Bool.and_false, Except.mapError, Option.filter_none, Option.mapM_none, pure, Except.pure]
    rfl

/-- What the loop has prepared of a new chain: a row for each action, in their order. -/
structure Prepared (R : Registry C) (specs : List WatchActionInput) (acc : Reconcile) : Prop where
  rows : List.Forall₂ (IsSubmitted R) specs acc.created
  ordered : acc.ordered = acc.created.map (·.id)
  updated : acc.updated = []

theorem reconcileOne_prepared (hi : Prepared R specs acc)
    (h : reconcileOne R mint account path [] acc spec = .ok acc') :
    Prepared R (specs ++ [spec]) acc' := by
  obtain ⟨row, prior, merged, -, hprior, hm, ⟨a, ha, -⟩ | ⟨rfl, -, rfl⟩⟩ := reconcileOne_eq_ok h
  · cases ha
  · obtain rfl : prior = none := (Except.pure_eq_ok.mp (Except.mapError_eq_ok.mp hprior)).symm
    rw [mergeConfig_none] at hm
    refine ⟨List.rel_append hi.rows (.cons ⟨rfl, merged, hm, rfl⟩ .nil), ?_, hi.updated⟩
    rw [Reconcile.create, hi.ordered, List.map_append]
    rfl

variable (mint account path) in
/-- **When `replace_chain` makes a new chain.** -/
theorem exists_replaceChain_iff : (∃ x, replaceChain R mint account path [] specs = .ok x) ↔
    ∀ spec ∈ specs, Creatable R spec := by
  rw [← Except.exists_foldlM_iff (f := reconcileOne R mint account path [])
    (b := { tempRank := ([] : List WatchAction).length + 1 }) fun b a => exists_reconcileOne_iff]
  constructor
  · rintro ⟨x, hx⟩
    obtain ⟨acc, hacc, -⟩ := replaceChain_eq_ok hx
    exact ⟨acc, hacc⟩
  · rintro ⟨acc, hacc⟩
    exact ⟨_, Except.bind_eq_ok.mpr ⟨acc, hacc, rfl⟩⟩

/-- The rows that it makes are the submitted actions. -/
theorem forall₂_created (hx : replaceChain R mint account path [] specs = .ok x) :
    List.Forall₂ (IsSubmitted R) specs x.created := by
  obtain ⟨acc, hacc, -, -, -, -, hcre, -⟩ := replaceChain_eq_ok hx
  have hprep : Prepared R ([] ++ specs) acc :=
    Except.prefix_of_foldlM_eq_ok (P := Prepared R) (fun _ _ _ _ hi h => reconcileOne_prepared hi h)
      ⟨.nil, rfl, rfl⟩ hacc
  exact hcre ▸ hprep.rows

/-- The database takes them when it takes each action's. -/
theorem all_takes_iff {ctx : CreateContext} {rows : List WatchAction}
    (h : List.Forall₂ (IsSubmitted R) specs rows) :
    (rows.all fun row => ctx.takes row.kind row.config) = true ↔
      ∀ spec ∈ specs, ctx.Takes (R := R) spec := by
  induction h with
  | nil => simp
  | @cons spec row specs rows hrow _ ih =>
    obtain ⟨hkind, c, hc, hconfig⟩ := hrow
    have htakes : ctx.takes row.kind row.config = true ↔ ctx.Takes (R := R) spec := by
      rw [hkind, hconfig]
      constructor
      · intro h c' hc'
        obtain rfl := Except.ok.inj (hc.symm.trans hc')
        exact h
      · exact fun h => h c hc
    rw [List.all_cons, Bool.and_eq_true, htakes, ih, List.forall_mem_cons]

/-- **The chain that it makes.** -/
theorem hasChain_of_replaceChain {w : World} (hids : (w.actions.map (·.id)).Nodup)
    (hmint : Function.Injective mint) (hnew : ∀ i, ∀ a ∈ w.actions, a.id ≠ mint i)
    (hpath : ∀ a ∈ w.actions, a.pathId ≠ path)
    (hx : replaceChain R mint account path [] specs = .ok x) :
    HasChain R account path specs (x.apply w) := by
  obtain ⟨acc, hacc, haccount, hdel, -, hupd, hcre, hranks⟩ := replaceChain_eq_ok hx
  have hrec : Reconciled mint account path [] specs acc := reconciled_of_foldlM hacc
  have hprep : Prepared R ([] ++ specs) acc :=
    Except.prefix_of_foldlM_eq_ok (P := Prepared R) (fun _ _ _ _ hi h => reconcileOne_prepared hi h)
      ⟨.nil, rfl, rfl⟩ hacc
  have hbase : x.base w.actions = w.actions ++ acc.created :=
    hcre ▸ base_of_created hdel (hupd.trans hprep.updated)
  have hnone : chainRows account path w.actions = [] :=
    List.filter_eq_nil_iff.mpr fun a ha h => hpath a ha (of_decide_eq_true h).2
  have hall : chainRows account path acc.created = acc.created :=
    List.filter_eq_self.mpr fun a ha =>
      decide_eq_true ⟨(hrec.created a ha).1, (hrec.created a ha).2.1⟩
  have hrows : chainRows account path (x.base w.actions) = acc.created := by
    rw [hbase, chainRows, List.filter_append]
    exact (congrArg₂ (· ++ ·) hnone hall).trans (List.nil_append _)
  have hr : x.Renumbers account path w.actions acc.created := by
    refine ⟨haccount, hprep.ordered ▸ hranks, ?_, ?_, hrec.parked⟩
    · rw [hrows]
    · rw [hbase, List.map_append, List.nodup_append]
      refine ⟨hids, ?_, ?_⟩
      · have hmap : acc.created.map (·.id) = (acc.created.map (·.rank)).map mint := by
          rw [List.map_map]
          exact List.map_congr_left fun a ha => (hrec.created a ha).2.2.1
        rw [hmap]
        exact hrec.parked.map hmint
      · intro i hi j hj hij
        obtain ⟨a, ha, rfl⟩ := List.mem_map.mp hi
        obtain ⟨b, hb, rfl⟩ := List.mem_map.mp hj
        exact hnew b.rank a ha (hij.trans (hrec.created b hb).2.2.1)
  have hlist := hr.listForPath
  refine ⟨?_, ?_⟩
  · show List.Forall₂ _ _ (listForPath account path (x.actions w.actions))
    rw [hlist, List.forall₂_map_right_iff]
    have hrows := hprep.rows
    rw [List.nil_append, ← List.zipIdx_map_fst 0 acc.created, List.forall₂_map_right_iff] at hrows
    exact hrows
  · show (listForPath account path (x.actions w.actions)).map _ = _
    rw [hr.chainOk.1.dense, hlist, List.length_map, List.length_zipIdx, ← hprep.rows.length_eq,
      List.nil_append]

/-! ## All or nothing -/

section Create

variable {ctx : CreateContext} {feedIds : List Id} {actions : List WatchActionInput}
  {s : AggregateStore}

/-- A new path has no actions. -/
theorem CreateContext.Fresh.noActions (h : ctx.Fresh s) :
    listForPath account ctx.pathId s.world.actions = [] :=
  List.eq_nil_iff_forall_not_mem.mpr fun a ha =>
    h.path a (mem_listForPath.mp ha).1 (mem_listForPath.mp ha).2.2

/-- A create that is refused at once leaves nothing. -/
theorem NothingNew.refl (s : AggregateStore) : NothingNew s s :=
  ⟨List.Subset.refl _, List.Subset.refl _, List.Subset.refl _, List.Subset.refl _⟩

/-- The first transaction leaves a new watch. -/
theorem CreateContext.Fresh.not_nothingNew (h : ctx.Fresh s) :
    ¬ NothingNew s (createAggregate ctx account feedIds s) := by
  intro hn
  have hm : (⟨ctx.watchId, account, ctx.pathId⟩ : Watch) ∈ s.world.watches :=
    hn.watches (List.mem_append_right _ List.mem_cons_self)
  exact h.watch _ hm rfl

variable (R account) in
/-- **When a create is all or nothing**: its first transaction is refused, or the lock is free,
`replace_chain` refuses none of the submitted actions, and the database none of their rows. -/
theorem create_all_or_nothing_iff (h : ctx.Fresh s) (feedIds : List Id)
    (actions : List WatchActionInput) :
    AllOrNothing R actions s (createWatch R ctx account feedIds actions s) ↔
      ctx.takesAggregate = false ∨ ctx.acquired = true ∧
        ∀ spec ∈ actions, Creatable R spec ∧ ctx.Takes (R := R) spec := by
  have hnone : listForPath account ctx.pathId (createAggregate ctx account feedIds s).world.actions =
      [] := h.noActions
  simp only [forall₂_and, ← exists_replaceChain_iff account ctx.pathId ctx.mintAction, createWatch,
    hnone]
  split_ifs with hfirst hacq
  · have hleft : ctx.takesAggregate ≠ false := by simp [hfirst]
    cases hx : replaceChain R ctx.mintAction account ctx.pathId [] actions with
    | error e => exact iff_of_false h.not_nothingNew (by simp [hfirst])
    | ok x =>
      have hrows : (x.created.all fun row => ctx.takes row.kind row.config) = true ↔
          ∀ spec ∈ actions, ctx.Takes (R := R) spec := all_takes_iff (forall₂_created hx)
      dsimp only
      split_ifs with htakes
      · refine iff_of_true ⟨List.mem_append_right _ List.mem_cons_self, ?_⟩
          (.inr ⟨hacq, ⟨x, rfl⟩, hrows.mp htakes⟩)
        exact hasChain_of_replaceChain h.ids h.mint h.new h.path hx
      · exact iff_of_false h.not_nothingNew fun hc =>
          htakes (hrows.mpr (hc.resolve_left hleft).2.2)
  · exact iff_of_false h.not_nothingNew fun hc => by simp [hfirst, hacq] at hc
  · exact iff_of_true (NothingNew.refl s) (.inl (by simpa using hfirst))

end Create

/-! ## A watch without its chain -/

/-- A create with the lock free, and a database that takes every config without a NUL. -/
def sampleCreate : CreateContext where
  mintFeed := id
  mintAction i := i + 100
  acquired := true
  watchId := 2
  pathId := 2
  takesAggregate := true
  takes _ config := ! config.hasNul

/-- The tables with one watch and its action. -/
def sampleAggregate : AggregateStore :=
  { world := { actions := [sampleAction 1 instantConfig 0], watches := [⟨1, 1, 1⟩] }
    paths := [⟨1, 1, 1⟩] }

theorem fresh_sampleCreate : sampleCreate.Fresh sampleAggregate where
  ids := by decide
  mint i j h := Nat.add_right_cancel h
  new i := by
    rintro a ha (hid : a.id = i + 100)
    obtain rfl := List.mem_singleton.mp ha
    exact absurd hid (Nat.ne_of_lt (Nat.lt_add_left i (by decide : 1 < 100)))
  path := by decide
  watch := by decide

/-- A new `log` action. -/
def newLog : WatchActionInput := { kind := "log", config := instantConfig }

/-- A new digest. -/
def newDigest : WatchActionInput := { kind := "log", config := digestConfig }

/-- A new `log` action whose line prefix is a NUL. -/
def nulLog : WatchActionInput where
  kind := "log"
  config := LogConfig.modelDump { linePrefix := String.ofList [Char.ofNat 0] }

/-- An action whose config is the dump of a valid one. -/
theorem takes_of_validateConfig {spec : WatchActionInput} {c : LogConfig}
    (hc : validateConfig sampleRegistry spec.kind spec.config = .ok c)
    (ht : sampleCreate.takes spec.kind (sampleRegistry.modelDump c) = true) :
    sampleCreate.Takes (R := sampleRegistry) spec := by
  intro c' hc'
  obtain rfl := Except.ok.inj (hc.symm.trans hc')
  exact ht

/-- A watch is created with two actions. -/
theorem create_sample : AllOrNothing sampleRegistry [newLog, newDigest] sampleAggregate
    (createWatch sampleRegistry sampleCreate 1 [5, 5] [newLog, newDigest] sampleAggregate) := by
  refine (create_all_or_nothing_iff sampleRegistry 1 fresh_sampleCreate _ _).mpr (.inr ⟨rfl, ?_⟩)
  intro spec hspec
  rcases List.mem_pair.mp hspec with rfl | rfl
  · exact ⟨⟨rfl, rfl, _, rfl⟩, takes_of_validateConfig rfl (by decide)⟩
  · exact ⟨⟨rfl, rfl, _, rfl⟩, takes_of_validateConfig rfl (by decide)⟩

/-- The watch as a read renders it: its action has an id. -/
def readBack : WatchView := ⟨[], [⟨5, "log", 0, some instantConfig⟩]⟩

/-- **A create that fails leaves its watch.** The serializer accepts what a read of another watch
returned; the chain is refused, and the watch and its path stay without one. So they do after a config
with a NUL, which the service accepts and the database refuses. -/
theorem create_leaves_watch :
    (∃ actions, validateWatch sampleRegistry 1 readBack sampleAggregate.world = .ok actions ∧
      postWatch sampleRegistry sampleCreate 1 readBack sampleAggregate =
        createWatch sampleRegistry sampleCreate 1 [] actions sampleAggregate ∧
      ¬ AllOrNothing sampleRegistry actions sampleAggregate
        (createWatch sampleRegistry sampleCreate 1 [] actions sampleAggregate)) ∧
    Creatable sampleRegistry nulLog ∧ ¬ AllOrNothing sampleRegistry [nulLog] sampleAggregate
      (createWatch sampleRegistry sampleCreate 1 [] [nulLog] sampleAggregate) :=
  ⟨⟨[{ newLog with id := some 5 }], rfl, rfl, fun h => fresh_sampleCreate.not_nothingNew h⟩,
    ⟨rfl, rfl, _, rfl⟩, fun h => fresh_sampleCreate.not_nothingNew h⟩

end OpenMagpie
