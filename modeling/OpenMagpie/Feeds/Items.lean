import OpenMagpie.Feeds.Connector
import OpenMagpie.Lib.Batched
import OpenMagpie.Lib.Table

/-!
# Recording the items of a poll

`record_items` consumes the generator of a poll chunk by chunk: a chunk is written before the next
one is pulled, and what is left at the end is written when the generator ends normally.

* `FeedItemService.recordChunk`: one chunk; the database refuses the whole chunk when one of its new
  rows does not fit.
* `FeedItemService.recordItems`: a generator, with the exception that ends the recording.
* **`recordItems_inserted`**: a recording inserts the rows of some of the payloads, and of all of
  them when it returns.
* `pollSourcePayloads`: one poll of a source.
-/

set_option autoImplicit false

namespace OpenMagpie

open Python Batched

/-! ## Recording -/

/-- The unique key of an item: feed, source kind, external id. -/
abbrev ItemKey := Id × String × String

instance sourceKey_lawful : LawfulBEq (String × String) := inferInstance

/-- The unique key of an item. -/
def FeedItem.key (i : FeedItem) : ItemKey := (i.feedId, i.sourceKind, i.externalId)

/-- The items a chunk of `record_items` covers. -/
def recordChunkSize : ℕ := 200

/-- The kinds and external ids that the feed has of some external ids. -/
def existingKeys (feed : Feed) (externalIds : List String) (items : List FeedItem) :
    List (String × String) :=
  (items.filter fun i => decide (i.accountId = feed.accountId ∧ i.feedId = feed.id ∧
    i.externalId ∈ externalIds)).map fun i => (i.sourceKind, i.externalId)

theorem key_of_mem_existingKeys {feed : Feed} {items : List FeedItem} {externalIds : List String}
    {kind externalId : String}
    (h : (kind, externalId) ∈ existingKeys feed externalIds items) :
    ((feed.id, kind, externalId) : ItemKey) ∈ items.map FeedItem.key := by
  obtain ⟨i, hi, hk⟩ := List.mem_map.mp h
  obtain ⟨hm, hp⟩ := List.mem_filter.mp hi
  refine List.mem_map.mpr ⟨i, hm, ?_⟩
  rw [FeedItem.key, (of_decide_eq_true hp).2.1, (Prod.mk.inj hk).1, (Prod.mk.inj hk).2]

/-- The row of a payload. -/
def SourcePayload.row (mint : SourcePayload → Id) (feed : Feed) (p : SourcePayload) : FeedItem :=
  { id := mint p
    accountId := feed.accountId
    feedId := feed.id
    occurredAt := some p.occurredAt.ensureAware
    sourceKind := p.source
    externalId := p.externalId }

/-- The key of a payload's item. -/
def SourcePayload.key (feed : Feed) (p : SourcePayload) : ItemKey := (feed.id, p.source, p.externalId)

namespace FeedItemService

variable (fits : SourcePayload → Bool) (mint : SourcePayload → Id) (feed : Feed)

/-- The payloads of a chunk that have no item. -/
def missing (items : List FeedItem) (chunk : List SourcePayload) : List SourcePayload :=
  let existing := existingKeys feed (chunk.map (·.externalId)) items
  chunk.filter fun p => decide ((p.source, p.externalId) ∉ existing)

/-- `_record_chunk`. -/
def recordChunk (chunk : List SourcePayload) (items : List FeedItem) :
    Except Raised (List FeedItem) :=
  let new := missing feed items chunk
  if new.all fits then
    .ok (Table.bulkInsert FeedItem.key (new.map (·.row mint feed)) items)
  else .error (.lib .databaseError)

/-- The chunks, until one is refused. -/
def recordChunks : List (List SourcePayload) → List FeedItem → List FeedItem × Except Raised Unit
  | [], items => (items, .ok ())
  | chunk :: chunks, items =>
    match recordChunk fits mint feed chunk items with
    | .error e => (items, .error e)
    | .ok items => recordChunks chunks items

/-- The chunks of a generator: the last one counts when it is full, or at a normal end. -/
def chunksOf (payloads : Generator SourceError SourcePayload) : List (List SourcePayload) :=
  let chunks := batched recordChunkSize payloads.yielded
  match payloads.outcome with
  | .ok () => chunks
  | .error _ => chunks.filter fun chunk => decide (chunk.length = recordChunkSize)

/-- `record_items`. -/
def recordItems (payloads : Generator SourceError SourcePayload) (items : List FeedItem) :
    List FeedItem × Except Raised Unit :=
  let (items, outcome) := recordChunks fits mint feed (chunksOf payloads) items
  (items, do outcome; payloads.outcome)

variable {fits mint feed} {items : List FeedItem} {chunk : List SourcePayload}
  {chunks : List (List SourcePayload)} {payloads : Generator SourceError SourcePayload}

theorem recordChunk_inserted {items' : List FeedItem}
    (h : recordChunk fits mint feed chunk items = .ok items') :
    Table.Inserted FeedItem.key (chunk.map (·.row mint feed)) items items' := by
  unfold recordChunk at h
  dsimp only at h
  split_ifs at h with hfits
  obtain rfl := Except.ok.inj h
  have hi : Table.Inserted FeedItem.key ((missing feed items chunk).map (·.row mint feed)) items _ :=
    Table.inserted_bulkInsert _ _
  refine ⟨hi.old, fun x hx => ?_, fun x hx => ?_, hi.nodup⟩
  · exact (hi.new x hx).imp_right fun h =>
      ⟨List.map_subset _ (List.filter_subset_self _) h.1, h.2⟩
  · obtain ⟨p, hp, rfl⟩ := List.mem_map.mp hx
    by_cases hm : (p.source, p.externalId) ∈ existingKeys feed (chunk.map (·.externalId)) items
    · exact List.map_subset _ hi.old (key_of_mem_existingKeys hm)
    · exact hi.all _ (List.mem_map_of_mem (List.mem_filter.mpr ⟨hp, decide_eq_true hm⟩))

variable (fits mint feed chunks items) in
theorem recordChunks_inserted : ∃ done, done ⊆ chunks.flatten ∧
    Table.Inserted FeedItem.key (done.map (·.row mint feed)) items
      (recordChunks fits mint feed chunks items).1 ∧
    ((recordChunks fits mint feed chunks items).2 = .ok () → done = chunks.flatten) := by
  induction chunks generalizing items with
  | nil => exact ⟨[], List.Subset.refl _, .refl items, fun _ => rfl⟩
  | cons chunk chunks ih =>
    unfold recordChunks
    cases hc : recordChunk fits mint feed chunk items with
    | error e => exact ⟨[], List.nil_subset _, .refl items, nofun⟩
    | ok items' =>
      obtain ⟨done, hsub, hi, hall⟩ := ih items'
      refine ⟨chunk ++ done, List.append_subset.mpr ⟨?_, ?_⟩, ?_, fun h => ?_⟩
      · exact List.subset_append_left _ _
      · exact List.subset_append_of_subset_right _ hsub
      · rw [List.map_append]
        exact (recordChunk_inserted hc).trans hi
      · rw [hall h, List.flatten_cons]

/-- The body of the loop over the chunks. -/
def writeChunk (fits : SourcePayload → Bool) (mint : SourcePayload → Id) (feed : Feed)
    (chunk : List SourcePayload) (items : List FeedItem) : List FeedItem × Except Raised Unit :=
  match recordChunk fits mint feed chunk items with
  | .error e => (items, .error e)
  | .ok items => (items, .ok ())

theorem recordChunks_eq :
    recordChunks fits mint feed chunks items = forEach (writeChunk fits mint feed) chunks items := by
  induction chunks generalizing items with
  | nil => rfl
  | cons chunk chunks ih =>
    unfold recordChunks forEach writeChunk
    cases recordChunk fits mint feed chunk items with
    | error e => rfl
    | ok items' => exact ih

theorem writeChunk_error {e : Raised} (h : (writeChunk fits mint feed chunk items).2 = .error e) :
    e = .lib .databaseError := by
  unfold writeChunk recordChunk at h
  dsimp only at h
  split_ifs at h
  exact (Except.error.inj h).symm

/-- The database takes the new rows of every chunk. -/
def Takes (fits : SourcePayload → Bool) (mint : SourcePayload → Id) (feed : Feed)
    (chunks : List (List SourcePayload)) (items : List FeedItem) : Prop :=
  ∀ before chunk after, chunks = before ++ chunk :: after →
    ∀ p ∈ missing feed (recordChunks fits mint feed before items).1 chunk, fits p

/-- **The chunks are written** when the database takes their rows. -/
theorem recordChunks_ok :
    (recordChunks fits mint feed chunks items).2 = .ok () ↔ Takes fits mint feed chunks items := by
  rw [recordChunks_eq, forEach_ok]
  refine forall₃_congr fun before chunk after => imp_congr_right fun _ => ?_
  rw [recordChunks_eq]
  unfold writeChunk recordChunk
  dsimp only
  split_ifs with h
  · exact iff_of_true rfl (List.all_eq_true.mp h)
  · exact iff_of_false (fun he => by cases he) fun hp => h (List.all_eq_true.mpr hp)

/-- Otherwise a database error ends the recording. -/
theorem recordChunks_error {e : Raised} (h : (recordChunks fits mint feed chunks items).2 = .error e) :
    e = .lib .databaseError := by
  rw [recordChunks_eq] at h
  exact of_forEach_error (P := (· = .lib .databaseError)) (fun _ _ _ => writeChunk_error) h

theorem flatten_chunksOf_subset : (chunksOf payloads).flatten ⊆ payloads.yielded := by
  have hflat := flatten_batched (n := recordChunkSize) (by decide) payloads.yielded
  unfold chunksOf
  cases payloads.outcome with
  | ok _ => exact fun p hp => hflat ▸ hp
  | error e =>
    intro p hp
    obtain ⟨chunk, hc, hp⟩ := List.mem_flatten.mp hp
    rw [← hflat]
    exact List.mem_flatten.mpr ⟨chunk, List.mem_of_mem_filter hc, hp⟩

theorem flatten_chunksOf (h : payloads.outcome = .ok ()) :
    (chunksOf payloads).flatten = payloads.yielded := by
  unfold chunksOf
  rw [h]
  exact flatten_batched (by decide) _

/-- A recording returns when the chunks are taken and the generator ends normally. -/
theorem recordItems_ok : (recordItems fits mint feed payloads items).2 = .ok () ↔
    (recordChunks fits mint feed (chunksOf payloads) items).2 = .ok () ∧
      payloads.outcome = .ok () := by
  unfold recordItems
  rw [Except.bind_eq_ok]
  exact ⟨fun ⟨(), h⟩ => h, fun h => ⟨(), h⟩⟩

variable (fits mint feed items payloads) in
/-- **`record_items` inserts rows of the payloads**, of all when it returns. -/
theorem recordItems_inserted : ∃ done, done ⊆ payloads.yielded ∧
    Table.Inserted FeedItem.key (done.map (·.row mint feed)) items
      (recordItems fits mint feed payloads items).1 ∧
    ((recordItems fits mint feed payloads items).2 = .ok () → done = payloads.yielded) := by
  obtain ⟨done, hsub, hi, hall⟩ := recordChunks_inserted fits mint feed items (chunksOf payloads)
  refine ⟨done, List.Subset.trans hsub flatten_chunksOf_subset, hi, fun h => ?_⟩
  obtain ⟨hrec, hend⟩ := recordItems_ok.mp h
  rw [hall hrec, flatten_chunksOf hend]

/-- The keys after a recording: those from before, and some of the payloads'. -/
theorem key_of_mem_recordItems {k : ItemKey}
    (h : k ∈ (recordItems fits mint feed payloads items).1.map FeedItem.key) :
    k ∈ items.map FeedItem.key ∨ ∃ p ∈ payloads.yielded, p.key feed = k := by
  obtain ⟨done, hsub, hi, -⟩ := recordItems_inserted fits mint feed items payloads
  obtain ⟨i, hm, rfl⟩ := List.mem_map.mp h
  rcases hi.new i hm with hm | ⟨hm, -⟩
  · exact .inl (List.mem_map_of_mem hm)
  · obtain ⟨p, hp, rfl⟩ := List.mem_map.mp hm
    exact .inr ⟨p, hsub hp, rfl⟩

/-- **The keys after a recording that returns.** -/
theorem mem_keys_recordItems (h : (recordItems fits mint feed payloads items).2 = .ok ())
    {k : ItemKey} : k ∈ (recordItems fits mint feed payloads items).1.map FeedItem.key ↔
      k ∈ items.map FeedItem.key ∨ ∃ p ∈ payloads.yielded, p.key feed = k := by
  refine ⟨key_of_mem_recordItems, ?_⟩
  obtain ⟨done, -, hi, hall⟩ := recordItems_inserted fits mint feed items payloads
  rintro (hk | ⟨p, hp, rfl⟩)
  · exact List.map_subset _ hi.old hk
  · exact hi.all _ (List.mem_map_of_mem (hall h ▸ hp))

end FeedItemService

/-! ## A poll -/

/-- A source row. -/
structure SourceRow where
  id : Id
  accountId : Id
  feedId : Id
  fieldMap : List (String × String) := []
  lastEventAt : Time

/-- `SourceService.advance_watermark`: forward only. -/
def SourceRow.advanceWatermark (src : SourceRow) (value : Time) : SourceRow :=
  if src.lastEventAt < value then { src with lastEventAt := value } else src

/-- `_PolledSource.newest` after the payloads have passed. -/
def newestPayload (initial : Time) (payloads : List SourcePayload) : Time :=
  payloads.foldl (fun newest p => if newest < p.occurredAt.ensureAware then p.occurredAt.ensureAware
    else newest) initial

/-- `_poll_source`, given the generator of the source's connector: the source and the feed's items
afterwards, and what it raises. -/
def pollSourcePayloads (fits : SourcePayload → Bool) (mint : SourcePayload → Id) (feed : Feed)
    (src : SourceRow) (payloads : Generator SourceError SourcePayload) (items : List FeedItem) :
    (SourceRow × List FeedItem) × Except Raised Unit :=
  let (items, outcome) := FeedItemService.recordItems fits mint feed payloads items
  match outcome with
  | .error e => ((src, items), .error e)
  | .ok () =>
    let newest := newestPayload src.lastEventAt payloads.yielded
    ((if newest ≠ src.lastEventAt then src.advanceWatermark newest else src, items), .ok ())

/-- A running maximum. -/
theorem foldl_newest_le {α : Type} {f : α → Time} {initial x : Time} {xs : List α} :
    xs.foldl (fun newest p => if newest < f p then f p else newest) initial ≤ x ↔
      initial ≤ x ∧ ∀ p ∈ xs, f p ≤ x := by
  induction xs generalizing initial with
  | nil => simp
  | cons p ps ih =>
    rw [List.foldl_cons, ih, List.forall_mem_cons, ← and_assoc]
    refine and_congr_left fun _ => ?_
    split_ifs with h
    · exact ⟨fun hp => ⟨le_trans (le_of_lt h) hp, hp⟩, And.right⟩
    · exact ⟨fun hi => ⟨hi, le_trans (not_lt.mp h) hi⟩, And.left⟩

section Poll

variable {fits : SourcePayload → Bool} {mint : SourcePayload → Id} {feed : Feed} {src : SourceRow}
  {payloads : Generator SourceError SourcePayload} {items : List FeedItem} {x : Time}

theorem pollSourcePayloads_items : (pollSourcePayloads fits mint feed src payloads items).1.2 =
    (FeedItemService.recordItems fits mint feed payloads items).1 := by
  unfold pollSourcePayloads
  dsimp only
  cases (FeedItemService.recordItems fits mint feed payloads items).2 <;> rfl

theorem pollSourcePayloads_outcome : (pollSourcePayloads fits mint feed src payloads items).2 =
    (FeedItemService.recordItems fits mint feed payloads items).2 := by
  unfold pollSourcePayloads
  dsimp only
  cases (FeedItemService.recordItems fits mint feed payloads items).2 <;> rfl

theorem pollSourcePayloads_id : (pollSourcePayloads fits mint feed src payloads items).1.1.id = src.id := by
  unfold pollSourcePayloads SourceRow.advanceWatermark
  dsimp only
  cases (FeedItemService.recordItems fits mint feed payloads items).2 with
  | error e => rfl
  | ok u =>
    dsimp only
    split_ifs <;> rfl

theorem pollSourcePayloads_fieldMap :
    (pollSourcePayloads fits mint feed src payloads items).1.1.fieldMap = src.fieldMap := by
  unfold pollSourcePayloads SourceRow.advanceWatermark
  dsimp only
  cases (FeedItemService.recordItems fits mint feed payloads items).2 with
  | error e => rfl
  | ok u =>
    dsimp only
    split_ifs <;> rfl

/-- A poll whose connector ends normally succeeds when the database takes every row. -/
theorem pollSourcePayloads_ok (hfits : ∀ p, fits p = true) (h : payloads.outcome = .ok ()) :
    (pollSourcePayloads fits mint feed src payloads items).2 = .ok () := by
  rw [pollSourcePayloads_outcome, FeedItemService.recordItems_ok, FeedItemService.recordChunks_ok]
  exact ⟨fun _ _ _ _ p _ => hfits p, h⟩

/-- **What a poll raises** that is not recoverable: what the generator does, or a database error. -/
theorem escapes_pollSourcePayloads :
    Escapes (pollSourcePayloads fits mint feed src payloads items).2 ↔ ¬ (¬ Escapes payloads.outcome ∧
      FeedItemService.Takes fits mint feed (FeedItemService.chunksOf payloads) items) := by
  have hrec : (FeedItemService.recordItems fits mint feed payloads items).2 =
      ((FeedItemService.recordChunks fits mint feed (FeedItemService.chunksOf payloads) items).2 >>=
        fun _ => payloads.outcome) := rfl
  rw [pollSourcePayloads_outcome, ← FeedItemService.recordChunks_ok, hrec]
  cases h : (FeedItemService.recordChunks fits mint feed (FeedItemService.chunksOf payloads) items).2
    with
  | error e =>
    obtain rfl := FeedItemService.recordChunks_error h
    exact iff_of_true ⟨_, rfl, by decide⟩ fun ht => nomatch ht.2
  | ok u => simp [bind, Except.bind]

/-- **The watermark after a successful poll.** -/
theorem pollSourcePayloads_lastEventAt_le
    (h : (pollSourcePayloads fits mint feed src payloads items).2 = .ok ()) :
    (pollSourcePayloads fits mint feed src payloads items).1.1.lastEventAt ≤ x ↔
      src.lastEventAt ≤ x ∧ ∀ p ∈ payloads.yielded, p.occurredAt.ensureAware ≤ x := by
  rw [pollSourcePayloads_outcome] at h
  have hnew : newestPayload src.lastEventAt payloads.yielded ≤ x ↔ _ := foldl_newest_le
  have hge : src.lastEventAt ≤ newestPayload src.lastEventAt payloads.yielded :=
    (foldl_newest_le.mp (le_refl (newestPayload src.lastEventAt payloads.yielded))).1
  rw [← hnew]
  unfold pollSourcePayloads SourceRow.advanceWatermark
  dsimp only
  rw [h]
  dsimp only
  split_ifs with hne hlt
  · rfl
  · rw [le_antisymm (not_lt.mp hlt) hge]
  · rw [not_not.mp hne]

end Poll

end OpenMagpie
