import Mathlib.Data.Finset.Card
import Mathlib.Data.Finset.Sort
import Mathlib.Data.List.Find
import OpenMagpie.Feeds.Policy
import OpenMagpie.Feeds.Polling
import OpenMagpie.Lib.Dumps
import OpenMagpie.Lib.Statements

/-!
# Replacing the sources of a feed

`SourceService.set_sources` makes the rows of a feed those of a submitted list, and a dry run of it
counts what would change.

* `setSources`: the checks, the diff of the hashes, and the transaction of a delete, an insert and the
  updates; `finalRows`: the table after it, in closed form.
* `Replaced`: what a replacement must establish; **`WellFormed.replaced`**: it does.
* `Taken`: the store takes what the items ask for. **`sets_sources_iff`**: a run replaces the rows, an
  exception leaves them, and a dry run foretells the run, exactly when the items are refused by the
  checks or are taken. **`preview_lies`**: with a watermark in the future they are not.
-/

set_option autoImplicit false

namespace OpenMagpie

open Python
open Url (Unicode)

namespace SourceService

/-! ## Rows and items -/

/-- A `Source` row. `metaTags` is its `meta`. -/
structure StoredSource where
  id : Id
  accountId : Id
  feedId : Id
  kind : String
  spec : Json
  specHash : String
  lastEventAt : Time
  metaTags : List (String × String)
  fieldMap : List (String × String)
  deriving DecidableEq

/-- `SourceInput`. -/
structure SourceInput where
  spec : SpecView
  metaTags : List (String × String)
  fieldMap : List (String × String)
  lastEventAt : Option Time

/-- `SourceSetResult`. -/
structure SourceSetResult where
  added : ℕ
  removed : ℕ
  persisted : ℕ
  sourceCount : ℕ
  deriving DecidableEq, Repr

/-- A feed with its kind. -/
structure KindedFeed extends Feed where
  kind : String

/-- What `set_sources` raises. -/
inductive SetSourcesError
  | valueError (message : String)
  | policyError (message : String)
  | concurrentSetSources (message : String)
  | dataError
  | other (e : Exc GateError)
  deriving DecidableEq

/-- An exception of the URL gate. -/
def SetSourcesError.ofGate : Exc GateError → SetSourcesError
  | .lib (.policyError message) => policyError message
  | e => other e

/-- The order in which a set is iterated over. -/
structure SetOrder where
  toList : Finset String → List String
  nodup : ∀ s, (toList s).Nodup
  mem_toList : ∀ s x, x ∈ toList s ↔ x ∈ s

/-- The service's account and deployment, and what its calls give: the time and the id that the row
of a hash is built with, and whether the database takes a row. -/
structure Env where
  accountId : Id
  connectorKinds : List String
  sourceBlockPrivateIps : Bool
  unicode : Unicode
  floatRepr : ℚ → String
  sha256 : String → String
  order : SetOrder
  now : String → Time
  mint : String → Id
  takes : StoredSource → Bool

variable (E : Env) (feed : KindedFeed)

/-! ## The checks -/

/-- `_assert_curated`. -/
def assertCurated : Except SetSourcesError Unit :=
  if feed.accountId ≠ E.accountId then
    .error (.valueError s!"feed account_id mismatch: '{feed.accountId}' not in scope '{E.accountId}'")
  else if feed.kind ≠ "curated" then
    .error (.policyError s!"sources are only supported on curated feeds (got kind='{feed.kind}')")
  else .ok ()

/-- `_assert_connector_registered`. -/
def assertConnectorRegistered (specs : List SpecView) : Except SetSourcesError Unit :=
  let missing := ((specs.map (·.kind)).filter (· ∉ E.connectorKinds)).dedup
  if missing ≠ [] then
    .error (.policyError ("no connector registered for source kind(s): " ++
      String.intercalate ", " (missing.insertionSort (· ≤ ·)) ++
      " (this deployment is missing the connector; remove the offending sources or upgrade the server)"))
  else .ok ()

/-- What `set_sources` checks before it looks at the rows. -/
def checks (items : List SourceInput) : Except SetSourcesError Unit := do
  assertCurated E feed
  assertConnectorRegistered E (items.map (·.spec))
  (enforceSourceSpecSafety E.unicode E.sourceBlockPrivateIps (items.map (·.spec))).mapError
    SetSourcesError.ofGate

/-! ## The diff -/

/-- `canonical_spec`, of a dumped spec. -/
def canonicalSpec (dump : Json) : String := dump.dumps E.floatRepr

/-- `_hash_spec`. -/
def hashSpec (dump : Json) : String := E.sha256 (canonicalSpec E dump)

/-- `new_by_hash`: the first item of each hash. -/
def newByHash (items : List SourceInput) : List (String × SourceInput) :=
  Table.bulkInsert (·.1) (items.map fun item => (hashSpec E item.spec.dump, item)) []

/-- `_scoped`. -/
def isScoped (r : StoredSource) : Bool := r.accountId = E.accountId ∧ r.feedId = feed.id

/-- `set(new_by_hash)`. -/
def newHashes (items : List SourceInput) : Finset String := ((newByHash E items).map (·.1)).toFinset

def existingHashes (rows : List StoredSource) : Finset String :=
  ((rows.filter (isScoped E feed)).map (·.specHash)).toFinset

/-- The counts of a diff. -/
def diffResult (items : List SourceInput) (rows : List StoredSource) : SourceSetResult :=
  let new := newHashes E items
  let existing := existingHashes E feed rows
  ⟨(new \ existing).card, (existing \ new).card, (new ∩ existing).card, new.card⟩

/-- `new_by_hash[h]`, for hashes that are keys of it. -/
def itemsOf (items : List SourceInput) (hashes : List String) : List (String × SourceInput) :=
  hashes.filterMap fun h => ((newByHash E items).lookup h).map fun item => (h, item)

/-! ## The transaction -/

/-- The row of an item, with a watermark. -/
def sourceRow (h : String) (item : SourceInput) (lastEventAt : Time) : StoredSource where
  id := E.mint h
  accountId := E.accountId
  feedId := feed.id
  kind := item.spec.kind
  spec := item.spec.dump
  specHash := h
  lastEventAt := lastEventAt
  metaTags := item.metaTags
  fieldMap := item.fieldMap

/-- The row that is built for an item to add. -/
def buildRow (p : String × SourceInput) : Except SetSourcesError StoredSource :=
  ((defaultAndEnforceSourceWatermark p.2.lastEventAt (E.now p.1)).mapError
    SetSourcesError.policyError).map (sourceRow E feed p.1 p.2)

/-- The unique constraint. -/
def uniqueKey (r : StoredSource) : Id × Id × String := (r.accountId, r.feedId, r.specHash)

/-- The row holds the item's `meta` and `field_map`; dicts are equal in any order. -/
def SameConfig (r : StoredSource) (item : SourceInput) : Prop :=
  r.metaTags.Perm item.metaTags ∧ r.fieldMap.Perm item.fieldMap

instance (r : StoredSource) (item : SourceInput) : Decidable (SameConfig r item) :=
  inferInstanceAs (Decidable (_ ∧ _))

/-- The row with the item's `meta` and `field_map`. -/
def refreshed (item : SourceInput) (r : StoredSource) : StoredSource :=
  { r with metaTags := item.metaTags, fieldMap := item.fieldMap }

/-- `existing[h] != (meta, field_map)`. -/
def isDirty (rows : List StoredSource) (p : String × SourceInput) : Bool :=
  ((rows.filter (isScoped E feed)).find? fun r => decide (r.specHash = p.1)).any fun r =>
    ! decide (SameConfig r p.2)

/-- The body of the transaction. -/
def replaceRows (items : List SourceInput) (rows : List StoredSource) :
    Except SetSourcesError (List StoredSource × SourceSetResult) := do
  let new := newHashes E items
  let existing := existingHashes E feed rows
  let kept := rows.filter fun r => ! (isScoped E feed r && decide (r.specHash ∈ existing \ new))
  let built ← (itemsOf E items (E.order.toList (new \ existing))).mapM (buildRow E feed)
  let inserted ← Table.insertRows E.takes .dataError uniqueKey built kept
  let dirty := (itemsOf E items (E.order.toList (existing ∩ new))).filter (isDirty E feed rows)
  let updated ← dirty.foldlM (fun t p => Table.updateRows E.takes .dataError
    (fun r => isScoped E feed r && decide (r.specHash = p.1)) (refreshed p.2) t) inserted
  pure (updated, diffResult E feed items rows)

/-- `set_sources`. `acquired` is the answer of `feed_set_lock`. -/
def setSources (items : List SourceInput) (dryRun acquired : Bool) (rows : List StoredSource) :
    List StoredSource × Except SetSourcesError SourceSetResult :=
  match checks E feed items with
  | .error e => (rows, .error e)
  | .ok () =>
    if dryRun then (rows, .ok (diffResult E feed items rows))
    else if ¬ acquired then
      (rows, .error (.concurrentSetSources
        s!"another set-sources is in progress for feed {feed.id}; retry in a moment"))
    else Table.atomic (replaceRows E feed items) rows

/-! ## The diff, in terms of the items and rows -/

/-- The first item of a hash. -/
def first (items : List SourceInput) (h : String) : Option SourceInput :=
  items.find? fun item => decide (hashSpec E item.spec.dump = h)

variable {E feed} {items : List SourceInput} {rows rows' : List StoredSource} {h : String}
  {item : SourceInput} {hashes : List String} {r : StoredSource}

theorem nodup_newByHash : ((newByHash E items).map (·.1)).Nodup := Table.nodup_bulkInsert _ .nil

theorem lookup_newByHash : (newByHash E items).lookup h = first E items h := by
  rw [newByHash, Table.lookup_bulkInsert, List.nil_append, first]
  exact Table.lookup_map_key

theorem mem_newHashes : h ∈ newHashes E items ↔ ∃ item, first E items h = some item := by
  rw [newHashes, List.mem_toFinset, ← lookup_newByHash, List.mem_map]
  constructor
  · rintro ⟨p, hp, rfl⟩
    exact ⟨p.2, (Table.mem_iff_lookup nodup_newByHash).mp hp⟩
  · rintro ⟨item, hi⟩
    exact ⟨(h, item), (Table.mem_iff_lookup nodup_newByHash).mpr hi, rfl⟩

theorem mem_existingHashes : h ∈ existingHashes E feed rows ↔
    ∃ r ∈ rows, isScoped E feed r = true ∧ r.specHash = h := by
  simp only [existingHashes, List.mem_toFinset, List.mem_map, List.mem_filter, and_assoc]

theorem mem_itemsOf {p : String × SourceInput} :
    p ∈ itemsOf E items hashes ↔ p.1 ∈ hashes ∧ first E items p.1 = some p.2 := by
  rw [itemsOf, List.mem_filterMap]
  constructor
  · rintro ⟨h, hh, hp⟩
    obtain ⟨item, hi, rfl⟩ := Option.map_eq_some_iff.mp hp
    exact ⟨hh, lookup_newByHash.symm.trans hi⟩
  · rintro ⟨hh, hi⟩
    exact ⟨p.1, hh, Option.map_eq_some_iff.mpr ⟨p.2, lookup_newByHash.trans hi, rfl⟩⟩

theorem nodup_itemsOf (hn : hashes.Nodup) : ((itemsOf E items hashes).map (·.1)).Nodup := by
  have hsub : ((itemsOf E items hashes).map (·.1)).Sublist hashes := by
    clear hn
    induction hashes with
    | nil => exact .slnil
    | cons h hashes ih =>
      rw [itemsOf, List.filterMap_cons]
      cases (newByHash E items).lookup h with
      | none => exact ih.cons h
      | some item => exact ih.cons_cons h
  exact hn.sublist hsub

/-! ## The transaction, in closed form -/

variable (E feed) in
/-- The row of an item to add. -/
def newRow (p : String × SourceInput) : StoredSource :=
  sourceRow E feed p.1 p.2 (p.2.lastEventAt.getD (E.now p.1))

variable (E) in
/-- The item's watermark is not in the future when its row is built. -/
def NotFuture (p : String × SourceInput) : Prop := ∀ t, p.2.lastEventAt = some t → t ≤ E.now p.1

theorem buildRow_eq_ok {p : String × SourceInput} :
    buildRow E feed p = .ok r ↔ NotFuture E p ∧ r = newRow E feed p := by
  rw [buildRow, Except.map_eq_ok]
  unfold NotFuture newRow
  simp only [Except.mapError_eq_ok]
  cases p.2.lastEventAt with
  | none => simp [defaultAndEnforceSourceWatermark, eq_comm]
  | some t =>
    by_cases ht : E.now p.1 < t
    · simp [defaultAndEnforceSourceWatermark, ht]
    · simp [defaultAndEnforceSourceWatermark, ht, not_lt.mp ht, eq_comm]

variable (E feed items rows) in
/-- The items to add. -/
def addedItems : List (String × SourceInput) :=
  itemsOf E items (E.order.toList (newHashes E items \ existingHashes E feed rows))

variable (E feed items rows) in
/-- The items whose rows are rewritten. -/
def dirtyItems : List (String × SourceInput) :=
  (itemsOf E items (E.order.toList (existingHashes E feed rows ∩ newHashes E items))).filter
    (isDirty E feed rows)

variable (E feed items rows) in
/-- The rows that the delete leaves. -/
def keptRows : List StoredSource :=
  rows.filter fun r => ! (isScoped E feed r &&
    decide (r.specHash ∈ existingHashes E feed rows \ newHashes E items))

variable (E feed items rows) in
/-- The rows after the insert. -/
def insertedRows : List StoredSource :=
  Table.bulkInsert uniqueKey ((addedItems E feed items rows).map (newRow E feed))
    (keptRows E feed items rows)

theorem replaceRows_eq_ok {result : SourceSetResult} :
    replaceRows E feed items rows = .ok (rows', result) ↔
    ((∀ p ∈ addedItems E feed items rows, NotFuture E p ∧ E.takes (newRow E feed p) = true) ∧
      (∀ p ∈ dirtyItems E feed items rows, ∀ r ∈ insertedRows E feed items rows,
        isScoped E feed r = true → r.specHash = p.1 → E.takes (refreshed p.2 r) = true)) ∧
    rows' = (insertedRows E feed items rows).map (Table.rewrite (isScoped E feed) (·.specHash)
      refreshed (dirtyItems E feed items rows)) ∧ result = diffResult E feed items rows := by
  have hn : ((dirtyItems E feed items rows).map (·.1)).Nodup :=
    (nodup_itemsOf (E.order.nodup _)).sublist (List.filter_sublist.map _)
  have hbuild := @Except.mapM_eq_ok_map _ _ _ (buildRow E feed) (NotFuture E) (newRow E feed)
    (fun _ _ => buildRow_eq_ok) (addedItems E feed items rows)
  have hupdate := @Table.foldlM_updateRows _ _ _ _ _ E.takes SetSourcesError.dataError
    (isScoped E feed) (·.specHash) refreshed (dirtyItems E feed items rows)
    (insertedRows E feed items rows) rows' (fun _ _ => rfl) hn
  rw [replaceRows]
  constructor
  · intro h
    obtain ⟨built, hb, h⟩ := Except.bind_eq_ok.mp h
    obtain ⟨hfuture, rfl⟩ := hbuild.mp hb
    obtain ⟨inserted, hi, h⟩ := Except.bind_eq_ok.mp h
    obtain ⟨htakes, rfl⟩ := Table.insertRows_eq_ok.mp hi
    obtain ⟨updated, hu, h⟩ := Except.bind_eq_ok.mp h
    obtain ⟨rfl, rfl⟩ := Prod.mk.inj (Except.pure_eq_ok.mp h)
    obtain ⟨htakes', hrows⟩ := hupdate.mp hu
    refine ⟨⟨fun p hp => ⟨hfuture p hp, ?_⟩, htakes'⟩, hrows, rfl⟩
    exact htakes _ (List.mem_map_of_mem hp)
  · rintro ⟨⟨hadded, hdirty⟩, hrows, rfl⟩
    refine Except.bind_eq_ok.mpr ⟨_, hbuild.mpr ⟨fun p hp => (hadded p hp).1, rfl⟩, ?_⟩
    refine Except.bind_eq_ok.mpr ⟨_, Table.insertRows_eq_ok.mpr ⟨fun r hr => ?_, rfl⟩, ?_⟩
    · obtain ⟨p, hp, rfl⟩ := List.mem_map.mp hr
      exact (hadded p hp).2
    · exact Except.bind_eq_ok.mpr ⟨_, hupdate.mpr ⟨hdirty, hrows⟩, rfl⟩

/-! ## The rows after the transaction -/

variable (E) in
/-- A table that `set_sources` has written: the unique constraint holds, and a row's hash is that of
its spec. -/
structure WellFormed (rows : List StoredSource) : Prop where
  unique : (rows.map uniqueKey).Nodup
  hashed : ∀ r ∈ rows, r.specHash = hashSpec E r.spec

theorem isScoped_iff : isScoped E feed r = true ↔ r.accountId = E.accountId ∧ r.feedId = feed.id :=
  decide_eq_true_iff

theorem isScoped_newRow (p : String × SourceInput) : isScoped E feed (newRow E feed p) = true :=
  isScoped_iff.mpr ⟨rfl, rfl⟩

/-- Two rows of the feed with one hash are one row. -/
theorem WellFormed.eq_of_hash (hwf : WellFormed E rows) {r r' : StoredSource} (hr : r ∈ rows)
    (hr' : r' ∈ rows) (hs : isScoped E feed r = true) (hs' : isScoped E feed r' = true)
    (hh : r.specHash = r'.specHash) : r = r' := by
  obtain ⟨ha, hf⟩ := isScoped_iff.mp hs
  obtain ⟨ha', hf'⟩ := isScoped_iff.mp hs'
  refine Table.eq_of_key hwf.unique hr hr' ?_
  rw [uniqueKey, uniqueKey, ha, hf, ha', hf', hh]

theorem hash_of_first (hi : first E items h = some item) : hashSpec E item.spec.dump = h := by
  rw [first] at hi
  have hsel := List.find?_some hi
  exact of_decide_eq_true hsel

theorem mem_addedItems {p : String × SourceInput} : p ∈ addedItems E feed items rows ↔
    first E items p.1 = some p.2 ∧ p.1 ∉ existingHashes E feed rows := by
  rw [addedItems, mem_itemsOf, E.order.mem_toList, Finset.mem_sdiff, mem_newHashes]
  constructor
  · rintro ⟨⟨-, hn⟩, hi⟩
    exact ⟨hi, hn⟩
  · rintro ⟨hi, hn⟩
    exact ⟨⟨⟨p.2, hi⟩, hn⟩, hi⟩

theorem mem_keptRows : r ∈ keptRows E feed items rows ↔ r ∈ rows ∧
    (isScoped E feed r = true → ∃ item, first E items r.specHash = some item) := by
  rw [keptRows, List.mem_filter]
  refine and_congr_right fun hr => ?_
  have hexisting (hs : isScoped E feed r = true) : r.specHash ∈ existingHashes E feed rows :=
    mem_existingHashes.mpr ⟨r, hr, hs, rfl⟩
  cases hs : isScoped E feed r with
  | false => simp
  | true => simp [hexisting hs, mem_newHashes]

/-- The insert drops no row. -/
theorem insertedRows_eq : insertedRows E feed items rows =
    keptRows E feed items rows ++ (addedItems E feed items rows).map (newRow E feed) := by
  refine Table.bulkInsert_eq_append ?_ fun r hr hc => ?_
  · have hn : ((addedItems E feed items rows).map (·.1)).Nodup := nodup_itemsOf (E.order.nodup _)
    rw [List.map_map]
    refine List.Nodup.of_map (fun k : Id × Id × String => k.2.2) ?_
    rw [List.map_map]
    exact hn
  · obtain ⟨p, hp, rfl⟩ := List.mem_map.mp hr
    obtain ⟨r, hr, hk⟩ := List.mem_map.mp hc
    obtain ⟨ha, hk⟩ := Prod.mk.inj hk
    obtain ⟨hf, hh⟩ := Prod.mk.inj hk
    have hs : isScoped E feed r = true := isScoped_iff.mpr ⟨ha, hf⟩
    exact (mem_addedItems.mp hp).2 (mem_existingHashes.mpr ⟨r, (mem_keptRows.mp hr).1, hs, hh⟩)

theorem WellFormed.isDirty_eq (hwf : WellFormed E rows) (hr : r ∈ rows)
    (hs : isScoped E feed r = true) :
    isDirty E feed rows (r.specHash, item) = ! decide (SameConfig r item) := by
  have hfind : (rows.filter (isScoped E feed)).find? (fun r' => decide (r'.specHash = r.specHash)) =
      some r := by
    cases hf : (rows.filter (isScoped E feed)).find? fun r' => decide (r'.specHash = r.specHash) with
    | none =>
      have := List.find?_eq_none.mp hf r (List.mem_filter.mpr ⟨hr, hs⟩)
      simp at this
    | some r' =>
      obtain ⟨hr', hs'⟩ := List.mem_filter.mp (List.mem_of_find?_eq_some hf)
      have hsel := List.find?_some hf
      rw [hwf.eq_of_hash hr' hr hs' hs (of_decide_eq_true hsel)]
  rw [isDirty, hfind, Option.any_some]

theorem WellFormed.mem_dirtyItems (hwf : WellFormed E rows) (hr : r ∈ rows)
    (hs : isScoped E feed r = true) : (r.specHash, item) ∈ dirtyItems E feed items rows ↔
      first E items r.specHash = some item ∧ ¬ SameConfig r item := by
  have hexisting : r.specHash ∈ existingHashes E feed rows := mem_existingHashes.mpr ⟨r, hr, hs, rfl⟩
  rw [dirtyItems, List.mem_filter, mem_itemsOf, hwf.isDirty_eq hr hs, E.order.mem_toList,
    Finset.mem_inter, mem_newHashes]
  simp only [hexisting, true_and, Bool.not_eq_true', decide_eq_false_iff_not]
  exact and_congr_left fun _ => ⟨And.right, fun hi => ⟨⟨item, hi⟩, hi⟩⟩

variable (E feed items rows) in
/-- A row as the updates leave it. -/
def finalRow (r : StoredSource) : StoredSource :=
  Table.rewrite (isScoped E feed) (·.specHash) refreshed (dirtyItems E feed items rows) r

/-- A column that the updates keep. -/
theorem finalRow_frame {γ : Type} (g : StoredSource → γ) (hg : ∀ item r, g (refreshed item r) = g r) :
    g (finalRow E feed items rows r) = g r := Table.rewrite_frame g hg

theorem isScoped_finalRow : isScoped E feed (finalRow E feed items rows r) = isScoped E feed r :=
  finalRow_frame _ fun _ _ => rfl

theorem specHash_finalRow : (finalRow E feed items rows r).specHash = r.specHash :=
  finalRow_frame StoredSource.specHash fun _ _ => rfl

theorem nodup_dirtyItems : ((dirtyItems E feed items rows).map (·.1)).Nodup :=
  (nodup_itemsOf (E.order.nodup _)).sublist (List.filter_sublist.map _)

/-- A persisted row takes the config of its item. -/
theorem WellFormed.sameConfig_finalRow (hwf : WellFormed E rows) (hr : r ∈ rows)
    (hs : isScoped E feed r = true) (hi : first E items r.specHash = some item) :
    SameConfig (finalRow E feed items rows r) item := by
  by_cases hc : SameConfig r item
  · have hnone : (dirtyItems E feed items rows).lookup r.specHash = none := by
      rw [List.lookup_eq_none_iff]
      rintro ⟨h, item'⟩ hp
      simp only [bne_iff_ne, ne_eq]
      rintro rfl
      obtain ⟨hi', hn⟩ := (hwf.mem_dirtyItems hr hs).mp hp
      obtain rfl := Option.some.inj (hi.symm.trans hi')
      exact hn hc
    rw [finalRow, Table.rewrite_of_none hnone]
    exact hc
  · have hmem := (hwf.mem_dirtyItems hr hs).mpr ⟨hi, hc⟩
    rw [finalRow, Table.rewrite_of_lookup hs (Table.lookup_of_mem nodup_dirtyItems hmem)]
    exact ⟨.refl _, .refl _⟩

/-- A row that was added is not rewritten. -/
theorem finalRow_newRow {p : String × SourceInput} (hp : p ∈ addedItems E feed items rows) :
    finalRow E feed items rows (newRow E feed p) = newRow E feed p := by
  refine Table.rewrite_of_none ?_
  rw [List.lookup_eq_none_iff]
  rintro ⟨h, item⟩ hq
  simp only [bne_iff_ne, ne_eq]
  rintro rfl
  have hq := (mem_itemsOf.mp (List.mem_of_mem_filter hq)).1
  rw [E.order.mem_toList, Finset.mem_inter] at hq
  exact (mem_addedItems.mp hp).2 hq.1

variable (E feed items rows) in
/-- The table after the transaction. -/
def finalRows : List StoredSource :=
  (insertedRows E feed items rows).map (finalRow E feed items rows)

/-- A row of the feed is a persisted one, or an added one. -/
theorem finalRows_cases (hr : r ∈ finalRows E feed items rows) (hs : isScoped E feed r = true) :
    (∃ r₀ ∈ rows, isScoped E feed r₀ = true ∧ (∃ item, first E items r₀.specHash = some item) ∧
      r = finalRow E feed items rows r₀) ∨
    ∃ p ∈ addedItems E feed items rows, r = newRow E feed p := by
  obtain ⟨r₀, hr₀, rfl⟩ := List.mem_map.mp hr
  rw [insertedRows_eq, List.mem_append] at hr₀
  rcases hr₀ with hr₀ | hr₀
  · have hs₀ : isScoped E feed r₀ = true := isScoped_finalRow.symm.trans hs
    obtain ⟨hmem, hi⟩ := mem_keptRows.mp hr₀
    exact .inl ⟨r₀, hmem, hs₀, hi hs₀, rfl⟩
  · obtain ⟨p, hp, rfl⟩ := List.mem_map.mp hr₀
    exact .inr ⟨p, hp, finalRow_newRow hp⟩

/-- **The transaction keeps the table well-formed.** -/
theorem WellFormed.finalRows (hwf : WellFormed E rows) :
    WellFormed E (finalRows E feed items rows) where
  unique := by
    have hkept : ((keptRows E feed items rows).map uniqueKey).Nodup :=
      hwf.unique.sublist (List.filter_sublist.map _)
    have hkeys : (SourceService.finalRows E feed items rows).map uniqueKey =
        (insertedRows E feed items rows).map uniqueKey := by
      rw [SourceService.finalRows, List.map_map]
      exact List.map_congr_left fun r _ => finalRow_frame uniqueKey fun _ _ => rfl
    rw [hkeys, insertedRows]
    exact Table.nodup_bulkInsert _ hkept
  hashed r hr := by
    obtain ⟨r₀, hr₀, rfl⟩ := List.mem_map.mp hr
    have hspec : (finalRow E feed items rows r₀).spec = r₀.spec :=
      finalRow_frame StoredSource.spec fun _ _ => rfl
    rw [specHash_finalRow, hspec]
    rw [insertedRows_eq, List.mem_append] at hr₀
    rcases hr₀ with hr₀ | hr₀
    · exact hwf.hashed r₀ (mem_keptRows.mp hr₀).1
    · obtain ⟨p, hp, rfl⟩ := List.mem_map.mp hr₀
      exact (hash_of_first (mem_addedItems.mp hp).1).symm

/-- The rows of the other feeds are as before. -/
theorem filter_finalRows : (finalRows E feed items rows).filter (fun r => ! isScoped E feed r) =
    rows.filter fun r => ! isScoped E feed r := by
  have hscope : ((fun r => ! isScoped E feed r) ∘ finalRow E feed items rows) =
      fun r => ! isScoped E feed r := by
    funext r
    rw [Function.comp_apply, isScoped_finalRow]
  have hkept : (keptRows E feed items rows).filter (fun r => ! isScoped E feed r) =
      rows.filter fun r => ! isScoped E feed r := by
    rw [keptRows, List.filter_filter]
    refine List.filter_congr fun r _ => ?_
    cases isScoped E feed r <;> rfl
  have hadded : ((addedItems E feed items rows).map (newRow E feed)).filter
      (fun r => ! isScoped E feed r) = [] := by
    rw [List.filter_eq_nil_iff]
    intro r hr
    obtain ⟨p, -, rfl⟩ := List.mem_map.mp hr
    simp [isScoped_newRow]
  rw [finalRows, List.filter_map, hscope, insertedRows_eq, List.filter_append, hkept, hadded,
    List.append_nil]
  refine (List.map_congr_left fun r hr => ?_).trans (List.map_id' _)
  exact Table.rewrite_of_not (by simpa using (List.mem_filter.mp hr).2)

/-! ## What a replacement must establish -/

section Replacement

variable (E feed)

/-- The rows of the feed. -/
def rowsOf (rows : List StoredSource) : List StoredSource := rows.filter (isScoped E feed)

/-- The canonical spec of a row. -/
def rowSpec (r : StoredSource) : String := canonicalSpec E r.spec

/-- The canonical spec of an item. -/
def itemSpec (item : SourceInput) : String := canonicalSpec E item.spec.dump

/-- The first item of a canonical spec. -/
def firstOf (items : List SourceInput) (c : String) : Option SourceInput :=
  items.find? fun item => decide (itemSpec E item = c)

/-- No two of the specs at hand have one hash. -/
def NoCollision (items : List SourceInput) (rows : List StoredSource) : Prop :=
  ∀ c ∈ items.map (itemSpec E) ++ (rowsOf E feed rows).map (rowSpec E),
    ∀ d ∈ items.map (itemSpec E) ++ (rowsOf E feed rows).map (rowSpec E),
      E.sha256 c = E.sha256 d → c = d

/-- The rows of the feed have become those of the items: one for each canonical spec, with the config
of its first item; persisted rows keep their id and watermark, and the watermark of an added row is
not later than the time it was built. -/
structure Replaced (items : List SourceInput) (rows rows' : List StoredSource) : Prop where
  others : rows'.filter (fun r => ! isScoped E feed r) = rows.filter fun r => ! isScoped E feed r
  unique : ((rowsOf E feed rows').map (rowSpec E)).Nodup
  specs : ∀ c, c ∈ (rowsOf E feed rows').map (rowSpec E) ↔ c ∈ items.map (itemSpec E)
  config : ∀ r ∈ rowsOf E feed rows', ∀ item, firstOf E items (rowSpec E r) = some item →
    SameConfig r item
  persisted : ∀ r ∈ rowsOf E feed rows, rowSpec E r ∈ items.map (itemSpec E) →
    ∃ r' ∈ rowsOf E feed rows', rowSpec E r' = rowSpec E r ∧ r'.id = r.id ∧
      r'.lastEventAt = r.lastEventAt
  added : ∀ r ∈ rowsOf E feed rows', rowSpec E r ∉ (rowsOf E feed rows).map (rowSpec E) →
    r.lastEventAt ≤ E.now r.specHash

variable {E feed}

theorem mem_rowsOf : r ∈ rowsOf E feed rows ↔ r ∈ rows ∧ isScoped E feed r = true := List.mem_filter

theorem NoCollision.firstOf_eq (hnc : NoCollision E feed items rows) {c : String}
    (hc : c ∈ items.map (itemSpec E) ++ (rowsOf E feed rows).map (rowSpec E)) :
    firstOf E items c = first E items (E.sha256 c) := by
  refine List.find?_congr fun item hitem => decide_eq_decide.mpr ⟨congrArg E.sha256, fun hh => ?_⟩
  exact hnc _ (List.mem_append_left _ (List.mem_map_of_mem hitem)) c hc hh

theorem mem_of_first (hi : first E items h = some item) : item ∈ items := List.mem_of_find?_eq_some hi

/-- An item has a first item of its spec. -/
theorem exists_first (hitem : item ∈ items) :
    ∃ item₀, first E items (E.sha256 (itemSpec E item)) = some item₀ := by
  cases hf : first E items (E.sha256 (itemSpec E item)) with
  | some item₀ => exact ⟨item₀, rfl⟩
  | none =>
    have := List.find?_eq_none.mp hf item hitem
    simp [hashSpec, itemSpec] at this

theorem rowSpec_finalRow : rowSpec E (finalRow E feed items rows r) = rowSpec E r :=
  finalRow_frame (rowSpec E) fun _ _ => rfl

/-- A row whose spec is submitted persists. -/
theorem finalRow_mem (hr : r ∈ rows) (hs : isScoped E feed r = true)
    (hi : first E items r.specHash = some item) :
    finalRow E feed items rows r ∈ rowsOf E feed (finalRows E feed items rows) := by
  refine mem_rowsOf.mpr ⟨List.mem_map_of_mem ?_, isScoped_finalRow.trans hs⟩
  rw [insertedRows_eq]
  exact List.mem_append_left _ (mem_keptRows.mpr ⟨hr, fun _ => ⟨item, hi⟩⟩)

/-- An item whose spec is not stored has its row added. -/
theorem newRow_mem {p : String × SourceInput} (hp : p ∈ addedItems E feed items rows) :
    newRow E feed p ∈ rowsOf E feed (finalRows E feed items rows) := by
  refine mem_rowsOf.mpr ⟨List.mem_map.mpr ⟨newRow E feed p, ?_, finalRow_newRow hp⟩,
    isScoped_newRow p⟩
  rw [insertedRows_eq]
  exact List.mem_append_right _ (List.mem_map_of_mem hp)

/-- The spec of a row of the feed is one of those at hand, and a submitted one. -/
theorem WellFormed.spec_mem (hwf : WellFormed E rows) (hnc : NoCollision E feed items rows)
    (hr : r ∈ rowsOf E feed (SourceService.finalRows E feed items rows)) :
    rowSpec E r ∈ items.map (itemSpec E) := by
  obtain ⟨hmem, hs⟩ := mem_rowsOf.mp hr
  obtain ⟨r₀, hr₀, hs₀, ⟨item, hi⟩, rfl⟩ | ⟨p, hp, rfl⟩ := finalRows_cases hmem hs
  · have hitem := List.mem_map_of_mem (f := itemSpec E) (mem_of_first hi)
    have hrow := List.mem_map_of_mem (f := rowSpec E) (mem_rowsOf.mpr ⟨hr₀, hs₀⟩)
    have hhash : E.sha256 (itemSpec E item) = E.sha256 (rowSpec E r₀) :=
      (hash_of_first hi).trans (hwf.hashed r₀ hr₀)
    rw [rowSpec_finalRow,
      ← hnc _ (List.mem_append_left _ hitem) _ (List.mem_append_right _ hrow) hhash]
    exact hitem
  · exact List.mem_map_of_mem (f := itemSpec E) (mem_of_first (mem_addedItems.mp hp).1)

/-- **What a replacement does.** -/
theorem WellFormed.replaced (hwf : WellFormed E rows) (hnc : NoCollision E feed items rows)
    (hfuture : ∀ p ∈ addedItems E feed items rows, NotFuture E p) :
    Replaced E feed items rows (SourceService.finalRows E feed items rows) := by
  have hwf' : WellFormed E (SourceService.finalRows E feed items rows) := hwf.finalRows
  refine ⟨filter_finalRows, ?_, fun c => ⟨?_, ?_⟩, ?_, ?_, ?_⟩
  · -- equal specs have equal hashes
    refine List.Nodup.map_on (fun r hr r' hr' hspec => ?_) ((List.Nodup.of_map _ hwf'.unique).filter _)
    obtain ⟨hr, hs⟩ := mem_rowsOf.mp hr
    obtain ⟨hr', hs'⟩ := mem_rowsOf.mp hr'
    refine hwf'.eq_of_hash hr hr' hs hs' ?_
    rw [hwf'.hashed r hr, hwf'.hashed r' hr']
    exact congrArg E.sha256 hspec
  · intro hc
    obtain ⟨r, hr, rfl⟩ := List.mem_map.mp hc
    exact hwf.spec_mem hnc hr
  · intro hc
    obtain ⟨item, hitem, rfl⟩ := List.mem_map.mp hc
    obtain ⟨item₀, hi⟩ := exists_first (E := E) hitem
    have hspec₀ := List.mem_append_left ((rowsOf E feed rows).map (rowSpec E))
      (List.mem_map_of_mem (f := itemSpec E) (mem_of_first hi))
    have hspec := List.mem_append_left ((rowsOf E feed rows).map (rowSpec E))
      (List.mem_map_of_mem (f := itemSpec E) hitem)
    by_cases he : E.sha256 (itemSpec E item) ∈ existingHashes E feed rows
    · obtain ⟨r, hr, hs, hh⟩ := mem_existingHashes.mp he
      have hrow := List.mem_append_right (items.map (itemSpec E))
        (List.mem_map_of_mem (f := rowSpec E) (mem_rowsOf.mpr ⟨hr, hs⟩))
      refine List.mem_map.mpr ⟨_, finalRow_mem hr hs (hh ▸ hi), rowSpec_finalRow.trans ?_⟩
      exact hnc _ hrow _ hspec ((hwf.hashed r hr).symm.trans hh)
    · have hp : (E.sha256 (itemSpec E item), item₀) ∈ addedItems E feed items rows :=
        mem_addedItems.mpr ⟨hi, he⟩
      refine List.mem_map.mpr ⟨_, newRow_mem hp, ?_⟩
      exact hnc _ hspec₀ _ hspec (hash_of_first hi)
  · intro r hr item hitem
    rw [hnc.firstOf_eq (List.mem_append_left _ (hwf.spec_mem hnc hr))] at hitem
    obtain ⟨hmem, hs⟩ := mem_rowsOf.mp hr
    have hhash : E.sha256 (rowSpec E r) = r.specHash := (hwf'.hashed r hmem).symm
    rw [hhash] at hitem
    obtain ⟨r₀, hr₀, hs₀, -, rfl⟩ | ⟨p, hp, rfl⟩ := finalRows_cases hmem hs
    · exact hwf.sameConfig_finalRow hr₀ hs₀ (specHash_finalRow ▸ hitem)
    · obtain rfl := Option.some.inj ((mem_addedItems.mp hp).1.symm.trans hitem)
      exact ⟨.refl _, .refl _⟩
  · intro r hr hc
    obtain ⟨hr, hs⟩ := mem_rowsOf.mp hr
    obtain ⟨item, hitem, hspec⟩ := List.mem_map.mp hc
    obtain ⟨item₀, hi⟩ := exists_first (E := E) hitem
    have hh : E.sha256 (itemSpec E item) = r.specHash := by rw [hspec, hwf.hashed r hr]; rfl
    refine ⟨_, finalRow_mem hr hs (hh ▸ hi), rowSpec_finalRow, ?_, ?_⟩
    · exact finalRow_frame StoredSource.id fun _ _ => rfl
    · exact finalRow_frame StoredSource.lastEventAt fun _ _ => rfl
  · intro r hr hn
    obtain ⟨hmem, hs⟩ := mem_rowsOf.mp hr
    obtain ⟨r₀, hr₀, hs₀, -, rfl⟩ | ⟨p, hp, rfl⟩ := finalRows_cases hmem hs
    · exact absurd (List.mem_map.mpr ⟨r₀, mem_rowsOf.mpr ⟨hr₀, hs₀⟩, rowSpec_finalRow.symm⟩) hn
    · have hp := hfuture p hp
      change p.2.lastEventAt.getD (E.now p.1) ≤ E.now p.1
      cases ht : p.2.lastEventAt with
      | none => exact le_refl _
      | some t => exact hp t ht

/-! ## When the transaction goes through -/

variable (E feed) in
/-- The store takes what the items ask for: the first item of a spec that is not stored has no
watermark in the future, and its row is taken; and so is every row that gets another config. -/
structure Taken (items : List SourceInput) (rows : List StoredSource) : Prop where
  added : ∀ c item, firstOf E items c = some item → c ∉ (rowsOf E feed rows).map (rowSpec E) →
    NotFuture E (E.sha256 c, item) ∧ E.takes (newRow E feed (E.sha256 c, item)) = true
  refreshed : ∀ r ∈ rowsOf E feed rows, ∀ item, firstOf E items (rowSpec E r) = some item →
    ¬ SameConfig r item → E.takes (refreshed item r) = true

/-- The items to add are the first ones of the specs that are not stored. -/
theorem WellFormed.mem_addedItems_iff (hwf : WellFormed E rows) (hnc : NoCollision E feed items rows)
    {p : String × SourceInput} : p ∈ addedItems E feed items rows ↔
      ∃ c, p.1 = E.sha256 c ∧ firstOf E items c = some p.2 ∧
        c ∉ (rowsOf E feed rows).map (rowSpec E) := by
  rw [mem_addedItems]
  constructor
  · rintro ⟨hi, hn⟩
    have hspec := List.mem_append_left ((rowsOf E feed rows).map (rowSpec E))
      (List.mem_map_of_mem (f := itemSpec E) (mem_of_first hi))
    have hhash : E.sha256 (itemSpec E p.2) = p.1 := hash_of_first hi
    refine ⟨itemSpec E p.2, hhash.symm, (hnc.firstOf_eq hspec).trans (hhash ▸ hi), fun hc => hn ?_⟩
    obtain ⟨r, hr, hrc⟩ := List.mem_map.mp hc
    obtain ⟨hr, hs⟩ := mem_rowsOf.mp hr
    refine mem_existingHashes.mpr ⟨r, hr, hs, (hwf.hashed r hr).trans ?_⟩
    exact (congrArg E.sha256 hrc).trans hhash
  · rintro ⟨c, hh, hi, hn⟩
    have hitem : p.2 ∈ items := List.mem_of_find?_eq_some hi
    have hc : itemSpec E p.2 = c := by
      rw [firstOf] at hi
      have hsel := List.find?_some hi
      exact of_decide_eq_true hsel
    have hspec := List.mem_append_left ((rowsOf E feed rows).map (rowSpec E))
      (List.mem_map_of_mem (f := itemSpec E) hitem)
    rw [hc] at hspec
    refine ⟨hh ▸ (hnc.firstOf_eq hspec).symm.trans hi, fun he => hn ?_⟩
    obtain ⟨r, hr, hs, hrh⟩ := mem_existingHashes.mp he
    have hrow := List.mem_map_of_mem (f := rowSpec E) (mem_rowsOf.mpr ⟨hr, hs⟩)
    have hsha : E.sha256 (rowSpec E r) = E.sha256 c :=
      (hwf.hashed r hr).symm.trans (hrh.trans hh)
    exact hnc _ (List.mem_append_right _ hrow) _ hspec hsha ▸ hrow

/-- **The transaction returns** when the store takes what the items ask for. -/
theorem WellFormed.replaceRows_iff (hwf : WellFormed E rows) (hnc : NoCollision E feed items rows)
    {result : SourceSetResult} : replaceRows E feed items rows = .ok (rows', result) ↔
      Taken E feed items rows ∧ rows' = SourceService.finalRows E feed items rows ∧
        result = diffResult E feed items rows := by
  rw [replaceRows_eq_ok]
  refine and_congr_left fun _ => ?_
  have hfirst {r : StoredSource} (hr : r ∈ rowsOf E feed rows) :
      firstOf E items (rowSpec E r) = first E items r.specHash := by
    rw [hwf.hashed r (mem_rowsOf.mp hr).1]
    exact hnc.firstOf_eq (List.mem_append_right _ (List.mem_map_of_mem hr))
  constructor
  · rintro ⟨hadded, hdirty⟩
    refine ⟨fun c item hi hn => ?_, fun r hr item hi hc => ?_⟩
    · exact hadded _ ((hwf.mem_addedItems_iff hnc).mpr ⟨c, rfl, hi, hn⟩)
    · rw [hfirst hr] at hi
      obtain ⟨hmem, hs⟩ := mem_rowsOf.mp hr
      refine hdirty _ ((hwf.mem_dirtyItems hmem hs).mpr ⟨hi, hc⟩) r ?_ hs rfl
      rw [insertedRows_eq]
      exact List.mem_append_left _ (mem_keptRows.mpr ⟨hmem, fun _ => ⟨item, hi⟩⟩)
  · intro htaken
    refine ⟨fun p hp => ?_, fun p hp r hr hs hh => ?_⟩
    · obtain ⟨c, hh, hi, hn⟩ := (hwf.mem_addedItems_iff hnc).mp hp
      obtain ⟨hash, item⟩ := p
      obtain rfl : hash = E.sha256 c := hh
      exact htaken.added c item hi hn
    · rw [insertedRows_eq, List.mem_append] at hr
      rcases hr with hr | hr
      · obtain ⟨hmem, -⟩ := mem_keptRows.mp hr
        obtain ⟨hash, item⟩ := p
        obtain rfl : r.specHash = hash := hh
        obtain ⟨hi, hc⟩ := (hwf.mem_dirtyItems hmem hs).mp hp
        have hrow := mem_rowsOf.mpr ⟨hmem, hs⟩
        exact htaken.refreshed r hrow _ ((hfirst hrow).trans hi) hc
      · -- an added row is not rewritten
        obtain ⟨q, hq, rfl⟩ := List.mem_map.mp hr
        have hp := (mem_itemsOf.mp (List.mem_of_mem_filter hp)).1
        rw [E.order.mem_toList, Finset.mem_inter, ← hh] at hp
        exact absurd hp.1 (mem_addedItems.mp hq).2

/-! ## Replacing and previewing -/

variable (E feed) in
/-- `set_sources` does what it is for: a success replaces the rows, an exception and a dry run leave
them, and with the lock a dry run succeeds with a result when the run does with that result. -/
structure SetsSources (items : List SourceInput) (rows : List StoredSource) : Prop where
  replaced : ∀ acquired rows' result,
    setSources E feed items false acquired rows = (rows', .ok result) → Replaced E feed items rows rows'
  raised : ∀ dryRun acquired rows' e,
    setSources E feed items dryRun acquired rows = (rows', .error e) → rows' = rows
  dry_run : ∀ acquired, (setSources E feed items true acquired rows).1 = rows
  preview : ∀ result, (setSources E feed items true true rows).2 = .ok result ↔
    (setSources E feed items false true rows).2 = .ok result

section Checked

variable (hc : checks E feed items = .ok ()) {acquired : Bool}

include hc

theorem setSources_dry : setSources E feed items true acquired rows =
    (rows, .ok (diffResult E feed items rows)) := by
  rw [setSources, hc]
  rfl

theorem setSources_locked : setSources E feed items false false rows =
    (rows, .error (.concurrentSetSources
      s!"another set-sources is in progress for feed {feed.id}; retry in a moment")) := by
  rw [setSources, hc]
  rfl

theorem setSources_run :
    setSources E feed items false true rows = Table.atomic (replaceRows E feed items) rows := by
  rw [setSources, hc]
  rfl

end Checked

theorem setSources_of_error {e : SetSourcesError} (h : checks E feed items = .error e)
    {dryRun acquired : Bool} :
    setSources E feed items dryRun acquired rows = (rows, .error e) := by
  rw [setSources, h]

/-- **An exception leaves the rows.** -/
theorem setSources_error {dryRun acquired : Bool} {e : SetSourcesError}
    (h : setSources E feed items dryRun acquired rows = (rows', .error e)) : rows' = rows := by
  cases hc : checks E feed items with
  | error e' =>
    rw [setSources_of_error hc] at h
    exact (congrArg Prod.fst h).symm
  | ok u =>
    cases dryRun with
    | true =>
      rw [setSources_dry hc] at h
      cases h
    | false =>
      cases acquired with
      | true =>
        rw [setSources_run hc] at h
        exact Table.atomic_error h
      | false =>
        rw [setSources_locked hc] at h
        exact (congrArg Prod.fst h).symm

/-- A run that returns has checked its items, had the lock, and made the transaction. -/
theorem WellFormed.setSources_ok (hwf : WellFormed E rows) (hnc : NoCollision E feed items rows)
    {acquired : Bool} {result : SourceSetResult}
    (h : setSources E feed items false acquired rows = (rows', .ok result)) :
    Taken E feed items rows ∧ rows' = SourceService.finalRows E feed items rows ∧
      result = diffResult E feed items rows := by
  cases hc : checks E feed items with
  | error e =>
    rw [setSources_of_error hc] at h
    cases h
  | ok u =>
    cases acquired with
    | true =>
      rw [setSources_run hc] at h
      exact (hwf.replaceRows_iff hnc).mp (Table.atomic_eq_ok.mp h)
    | false =>
      rw [setSources_locked hc] at h
      cases h

theorem WellFormed.setSources_taken (hwf : WellFormed E rows) (hnc : NoCollision E feed items rows)
    (hc : checks E feed items = .ok ()) (h : Taken E feed items rows) :
    setSources E feed items false true rows =
      (SourceService.finalRows E feed items rows, .ok (diffResult E feed items rows)) := by
  rw [setSources_run hc]
  exact Table.atomic_eq_ok.mpr ((hwf.replaceRows_iff hnc).mpr ⟨h, rfl, rfl⟩)

/-- **Replacing the sources of a feed** does what it is for exactly when, for items that pass the
checks, the store takes what they ask for. -/
theorem sets_sources_iff (hwf : WellFormed E rows) (hnc : NoCollision E feed items rows) :
    SetsSources E feed items rows ↔
      (checks E feed items = .ok () → Taken E feed items rows) := by
  constructor
  · intro h hc
    have hdry : (setSources E feed items true true rows).2 = .ok (diffResult E feed items rows) := by
      rw [setSources_dry hc]
    have hrun : setSources E feed items false true rows =
        ((setSources E feed items false true rows).1, .ok (diffResult E feed items rows)) :=
      Prod.ext rfl ((h.preview _).mp hdry)
    exact (hwf.setSources_ok hnc hrun).1
  · intro h
    refine ⟨fun acquired rows' result hrun => ?_, fun _ _ _ _ => setSources_error, fun acquired => ?_,
      fun result => ?_⟩
    · obtain ⟨htaken, rfl, -⟩ := hwf.setSources_ok hnc hrun
      refine hwf.replaced hnc fun p hp => ?_
      obtain ⟨c, hh, hi, hn⟩ := (hwf.mem_addedItems_iff hnc).mp hp
      obtain ⟨hash, item⟩ := p
      obtain rfl : hash = E.sha256 c := hh
      exact (htaken.added c item hi hn).1
    · cases hc : checks E feed items with
      | error e => rw [setSources_of_error hc]
      | ok u => rw [setSources_dry hc]
    · cases hc : checks E feed items with
      | error e => rw [setSources_of_error hc, setSources_of_error hc]
      | ok u => rw [setSources_dry hc, hwf.setSources_taken hnc hc (h hc)]

/-- **A table stays well-formed.** -/
theorem WellFormed.setSources (hwf : WellFormed E rows) (hnc : NoCollision E feed items rows)
    {dryRun acquired : Bool} : WellFormed E (setSources E feed items dryRun acquired rows).1 := by
  cases hres : SourceService.setSources E feed items dryRun acquired rows with
  | mk rows' result =>
    cases result with
    | error e =>
      rw [setSources_error hres]
      exact hwf
    | ok result =>
      cases dryRun with
      | false =>
        obtain ⟨-, rfl, -⟩ := hwf.setSources_ok hnc hres
        exact hwf.finalRows
      | true =>
        cases hc : checks E feed items with
        | error e =>
          rw [setSources_of_error hc] at hres
          cases hres
        | ok u =>
          rw [setSources_dry hc] at hres
          exact congrArg Prod.fst hres ▸ hwf

end Replacement

/-! ## A feed of two sources -/

/-- An `RssSourceSpec`. -/
def rssSpec (name url : String) : SpecView where
  kind := rssKind
  isPlugin := false
  dump := .obj [("kind", .str rssKind), ("url", .str url), ("name", .str name)]
  urlFields := some ["url"]
  attr field := if field = "url" then url else name

/-- A deployment at time 100. `sha256` is right on the specs of two sources. -/
def sampleEnv : Env where
  accountId := 1
  connectorKinds := [rssKind]
  sourceBlockPrivateIps := true
  unicode := asciiUnicode
  floatRepr _ := ""
  sha256 c :=
    if c = "\x7b\"kind\":\"rss\",\"name\":\"A\",\"url\":\"https://a.test/rss\"\x7d" then
      "6b38fb66e43a55e44454f0b74ada148b11e36c37d5c6d26c142d9cc0852a619b"
    else if c = "\x7b\"kind\":\"rss\",\"name\":\"B\",\"url\":\"https://b.test/rss\"\x7d" then
      "d33c19c5802d0d4db03008e8c564a0f1ec902a80c091461ebaabaffd4f4f4a57"
    else c
  order := ⟨fun s => s.sort (· ≤ ·), fun s => s.sort_nodup _, fun _ _ => Finset.mem_sort _⟩
  now _ := 100
  mint _ := 9
  takes _ := true

def sampleFeed : KindedFeed := ⟨⟨7, 1⟩, "curated"⟩

/-- The row of the source `A`. -/
def rowA : StoredSource where
  id := 3
  accountId := 1
  feedId := 7
  kind := rssKind
  spec := (rssSpec "A" "https://a.test/rss").dump
  specHash := "6b38fb66e43a55e44454f0b74ada148b11e36c37d5c6d26c142d9cc0852a619b"
  lastEventAt := 40
  metaTags := []
  fieldMap := []

def itemA : SourceInput := ⟨rssSpec "A" "https://a.test/rss", [("topic", "x")], [], some 20⟩

/-- The source `B`, with a watermark. -/
def itemB (lastEventAt : Time) : SourceInput :=
  ⟨rssSpec "B" "https://b.test/rss", [], [], some lastEventAt⟩

theorem wellFormed_rowA : WellFormed sampleEnv [rowA] where
  unique := by simp
  hashed r hr := by
    obtain rfl := List.mem_singleton.mp hr
    decide +kernel

/-- `A` is submitted with other tags, and `B` twice. -/
theorem sets_sources_sample : SetsSources sampleEnv sampleFeed [itemB 60, itemA, itemB 70] [rowA] := by
  have hnc : NoCollision sampleEnv sampleFeed [itemB 60, itemA, itemB 70] [rowA] := by
    unfold NoCollision
    decide +kernel
  refine (sets_sources_iff wellFormed_rowA hnc).mpr fun _ =>
    ⟨fun c item hi _ => ⟨?_, rfl⟩, fun _ _ _ _ _ => rfl⟩
  intro t ht
  have hmem : item ∈ [itemB 60, itemA, itemB 70] := List.mem_of_find?_eq_some hi
  simp only [List.mem_cons, List.not_mem_nil, or_false] at hmem
  rcases hmem with rfl | rfl | rfl
  · obtain rfl := Option.some.inj ht
    exact (by decide : (60 : Time) ≤ 100)
  · obtain rfl := Option.some.inj ht
    exact (by decide : (20 : Time) ≤ 100)
  · obtain rfl := Option.some.inj ht
    exact (by decide : (70 : Time) ≤ 100)

/-- **A dry run that lies.** The source `A` is replaced by `B` with a watermark in the future: the dry
run counts one added and one removed row, the run raises. -/
theorem preview_lies : WellFormed sampleEnv [rowA] ∧
    NoCollision sampleEnv sampleFeed [itemB 200] [rowA] ∧
    (setSources sampleEnv sampleFeed [itemB 200] true true [rowA]).2 = .ok ⟨1, 1, 0, 1⟩ ∧
    ¬ SetsSources sampleEnv sampleFeed [itemB 200] [rowA] := by
  have hnc : NoCollision sampleEnv sampleFeed [itemB 200] [rowA] := by
    unfold NoCollision
    decide +kernel
  have hdry : (setSources sampleEnv sampleFeed [itemB 200] true true [rowA]).2 = .ok ⟨1, 1, 0, 1⟩ := by
    decide +kernel
  have hrun : (setSources sampleEnv sampleFeed [itemB 200] false true [rowA]).2 ≠ .ok ⟨1, 1, 0, 1⟩ := by
    decide +kernel
  exact ⟨wellFormed_rowA, hnc, hdry, fun h => hrun ((h.preview _).mp hdry)⟩

end SourceService

end OpenMagpie
