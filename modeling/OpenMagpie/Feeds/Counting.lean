import OpenMagpie.Feeds.Items

/-!
# The count of new items

`record_items` returns how many rows are new: for each chunk, the number of its payloads that have no
item when the chunk is read. The insert itself drops a row whose key is taken.

* `FeedItemService.recordItemsCount`: a recording with its count, in chunks of any size;
  `recordItems_eq_count`: with the default size it is `recordItems`.
* `RecordsUnion`: the keys become the union, no row changes, the count is the number of rows added,
  and the same call again adds none.
* **`recordsUnion_iff`**: that holds exactly when no chunk holds one new key twice.
* **`count_exceeds`**: a key twice in one chunk is counted twice.
-/

set_option autoImplicit false

namespace OpenMagpie

open Python Batched Split

namespace FeedItemService

/-! ## Recording with the count -/

/-- A recording under way. -/
structure Recording where
  items : List FeedItem
  created : ℕ := 0

variable (fits : SourcePayload → Bool) (mint : SourcePayload → Id) (feed : Feed)

/-- `_record_chunk`, with the number that it returns. -/
def recordChunkCount (chunk : List SourcePayload) (items : List FeedItem) :
    Except Raised (List FeedItem × ℕ) :=
  (recordChunk fits mint feed chunk items).map fun items' => (items', (missing feed items chunk).length)

/-- The body of the loop over the chunks. -/
def countChunk (chunk : List SourcePayload) (r : Recording) : Recording × Except Raised Unit :=
  match recordChunkCount fits mint feed chunk r.items with
  | .error e => (r, .error e)
  | .ok (items, new) => ({ items, created := r.created + new }, .ok ())

/-- The chunks of a generator, of `chunkSize` payloads each. -/
def chunksBy (chunkSize : ℕ) (payloads : Generator SourceError SourcePayload) :
    List (List SourcePayload) :=
  let chunks := batched chunkSize payloads.yielded
  match payloads.outcome with
  | .ok () => chunks
  | .error _ => chunks.filter fun chunk => decide (chunk.length = chunkSize)

/-- `record_items`: the items afterwards, and the count of new rows. -/
def recordItemsCount (chunkSize : ℕ) (payloads : Generator SourceError SourcePayload)
    (items : List FeedItem) : List FeedItem × Except Raised ℕ :=
  let (r, outcome) := forEach (countChunk fits mint feed) (chunksBy chunkSize payloads) { items }
  (r.items, do outcome; payloads.outcome; return r.created)

/-! ## What a recording should do -/

section Spec

variable (fits : SourcePayload → Bool) (mint : SourcePayload → Id) (feed : Feed)
  (items : List FeedItem) (chunkSize : ℕ) (payloads : List SourcePayload)

/-- A recording of payloads. -/
def recorded : List FeedItem × Except Raised ℕ :=
  recordItemsCount fits mint feed chunkSize ⟨payloads, .ok ()⟩ items

/-- **The keys become the union, no row changes, and the count is the number of rows added**; the same
call again adds none. -/
structure RecordsUnion : Prop where
  keys : ∀ k, k ∈ (recorded fits mint feed items chunkSize payloads).1.map FeedItem.key ↔
    k ∈ items.map FeedItem.key ∨ ∃ p ∈ payloads, p.key feed = k
  kept : items <+: (recorded fits mint feed items chunkSize payloads).1
  count : ∃ created, (recorded fits mint feed items chunkSize payloads).2 = .ok created ∧
    (recorded fits mint feed items chunkSize payloads).1.length = items.length + created
  again : ∀ mint', recorded fits mint' feed
      (recorded fits mint feed items chunkSize payloads).1 chunkSize payloads =
    ((recorded fits mint feed items chunkSize payloads).1, .ok 0)

/-- No chunk holds a key twice that neither the feed nor an earlier chunk has. -/
def ChunksDistinct (chunks : List (List SourcePayload)) : Prop :=
  ∀ before chunk after, chunks = before ++ chunk :: after →
    ((chunk.filter fun p => decide (p.key feed ∉ items.map FeedItem.key ∧
      p.key feed ∉ before.flatten.map (·.key feed))).map (·.key feed)).Nodup

/-- The items of a feed are its account's. -/
def FeedOwned : Prop := ∀ i ∈ items, i.feedId = feed.id → i.accountId = feed.accountId

end Spec

/-! ## One chunk -/

section Chunk

variable {fits : SourcePayload → Bool} {mint : SourcePayload → Id} {feed : Feed}
  {items : List FeedItem} {chunk : List SourcePayload} {r : Recording}

/-- What is missing, by the keys. -/
theorem missing_eq_filter (ho : FeedOwned feed items) : missing feed items chunk =
    chunk.filter fun p => decide (p.key feed ∉ items.map FeedItem.key) := by
  refine List.filter_congr fun p hp => decide_eq_decide.mpr (not_congr ⟨key_of_mem_existingKeys, ?_⟩)
  intro hk
  obtain ⟨i, hi, hk⟩ := List.mem_map.mp hk
  obtain ⟨hfeed, hrest⟩ := Prod.mk.inj hk
  obtain ⟨hkind, hext⟩ := Prod.mk.inj hrest
  refine List.mem_map.mpr ⟨i, List.mem_filter.mpr ⟨hi, decide_eq_true ⟨ho i hi hfeed, hfeed, ?_⟩⟩, ?_⟩
  · exact hext ▸ List.mem_map_of_mem hp
  · rw [hkind, hext]

/-- The items after a chunk. -/
def afterChunk (mint : SourcePayload → Id) (feed : Feed) (chunk : List SourcePayload)
    (items : List FeedItem) : List FeedItem :=
  Table.bulkInsert FeedItem.key ((missing feed items chunk).map (·.row mint feed)) items

theorem recordChunk_of_fits (hf : ∀ p ∈ chunk, fits p) :
    recordChunk fits mint feed chunk items = .ok (afterChunk mint feed chunk items) :=
  if_pos (List.all_eq_true.mpr fun p hp => hf p (List.mem_of_mem_filter hp))

/-- **One chunk**, when the database takes its rows. -/
theorem countChunk_eq (hf : ∀ p ∈ chunk, fits p) : countChunk fits mint feed chunk r =
    (⟨afterChunk mint feed chunk r.items, r.created + (missing feed r.items chunk).length⟩, .ok ()) := by
  rw [countChunk, recordChunkCount, recordChunk_of_fits hf]
  rfl

theorem afterChunk_inserted : Table.Inserted FeedItem.key (chunk.map (·.row mint feed)) items
    (afterChunk mint feed chunk items) :=
  have hchunk : recordChunk (fun _ => true) mint feed chunk items =
      .ok (afterChunk mint feed chunk items) := recordChunk_of_fits fun _ _ => rfl
  recordChunk_inserted hchunk

theorem mem_keys_afterChunk {k : ItemKey} : k ∈ (afterChunk mint feed chunk items).map FeedItem.key ↔
    k ∈ items.map FeedItem.key ∨ k ∈ chunk.map (·.key feed) := by
  have hi : Table.Inserted FeedItem.key (chunk.map (·.row mint feed)) items _ := afterChunk_inserted
  constructor
  · intro h
    obtain ⟨i, hm, rfl⟩ := List.mem_map.mp h
    rcases hi.new i hm with hm | ⟨hm, -⟩
    · exact .inl (List.mem_map_of_mem hm)
    · obtain ⟨p, hp, rfl⟩ := List.mem_map.mp hm
      exact .inr (List.mem_map_of_mem hp)
  · rintro (h | h)
    · exact List.map_subset _ hi.old h
    · obtain ⟨p, hp, rfl⟩ := List.mem_map.mp h
      exact hi.all _ (List.mem_map_of_mem hp)

theorem FeedOwned.afterChunk (ho : FeedOwned feed items) :
    FeedOwned feed (afterChunk mint feed chunk items) := by
  intro i hi hfeed
  rcases afterChunk_inserted.new i hi with hm | ⟨hm, -⟩
  · exact ho i hm hfeed
  · obtain ⟨p, -, rfl⟩ := List.mem_map.mp hm
    rfl

variable (mint chunk) in
/-- A chunk adds as many rows as it counts, when its new keys are distinct; fewer otherwise. -/
theorem length_afterChunk (ho : FeedOwned feed items) :
    (afterChunk mint feed chunk items).length ≤ items.length + (missing feed items chunk).length ∧
    ((afterChunk mint feed chunk items).length = items.length + (missing feed items chunk).length ↔
      ((chunk.filter fun p => decide (p.key feed ∉ items.map FeedItem.key)).map (·.key feed)).Nodup) := by
  have hlen : (missing feed items chunk).length =
      ((missing feed items chunk).map (·.row mint feed)).length := (List.length_map _).symm
  have hkeys : ((missing feed items chunk).map (·.row mint feed)).map FeedItem.key =
      (missing feed items chunk).map (·.key feed) := List.map_map
  rw [hlen, afterChunk]
  refine ⟨Table.length_bulkInsert_le _ _ _, Table.length_bulkInsert_eq_iff.trans ?_⟩
  rw [hkeys, missing_eq_filter ho]
  refine and_iff_left fun r hr => ?_
  obtain ⟨p, hp, rfl⟩ := List.mem_map.mp hr
  exact of_decide_eq_true (List.mem_filter.mp hp).2

theorem prefix_afterChunk : items <+: afterChunk mint feed chunk items := Table.prefix_bulkInsert _ _

variable (mint) in
/-- A chunk whose keys are all there. -/
theorem afterChunk_eq_self (ho : FeedOwned feed items)
    (hk : ∀ p ∈ chunk, p.key feed ∈ items.map FeedItem.key) :
    missing feed items chunk = [] ∧ afterChunk mint feed chunk items = items := by
  have hm : missing feed items chunk = [] := by
    rw [missing_eq_filter ho]
    exact List.filter_eq_nil_iff.mpr fun p hp => by simpa using hk p hp
  exact ⟨hm, by rw [afterChunk, hm]; rfl⟩

end Chunk

/-! ## The whole recording -/

section Run

variable {fits : SourcePayload → Bool} {mint : SourcePayload → Id} {feed : Feed} {chunkSize : ℕ}
  {payloads : List SourcePayload} {items : List FeedItem} {chunk : List SourcePayload}
  {chunks : List (List SourcePayload)} {r : Recording}

variable (mint) in
/-- The first chunk and the rest. -/
theorem chunksDistinct_cons : ChunksDistinct feed items (chunk :: chunks) ↔
    ((chunk.filter fun p => decide (p.key feed ∉ items.map FeedItem.key)).map (·.key feed)).Nodup ∧
      ChunksDistinct feed (afterChunk mint feed chunk items) chunks := by
  unfold ChunksDistinct
  rw [forall_split_cons]
  refine and_congr (by simp) (forall₃_congr fun before x after => imp_congr_right fun _ => ?_)
  have hp : ∀ p : SourcePayload, (p.key feed ∉ items.map FeedItem.key ∧
      p.key feed ∉ (chunk :: before).flatten.map (·.key feed)) ↔
        p.key feed ∉ (afterChunk mint feed chunk items).map FeedItem.key ∧
          p.key feed ∉ before.flatten.map (·.key feed) := by
    intro p
    rw [mem_keys_afterChunk, List.flatten_cons, List.map_append, List.mem_append]
    simp only [not_or, and_assoc]
  simp only [hp]

variable (mint r) in
/-- **The loop over the chunks.** It never counts less than it adds, and counts right exactly when no
chunk holds a new key twice. -/
theorem countChunks_spec (ho : FeedOwned feed r.items) (hf : ∀ p ∈ chunks.flatten, fits p) :
    ∃ r', forEach (countChunk fits mint feed) chunks r = (r', .ok ()) ∧ FeedOwned feed r'.items ∧
      r.items <+: r'.items ∧
      (∀ k, k ∈ r'.items.map FeedItem.key ↔
        k ∈ r.items.map FeedItem.key ∨ k ∈ chunks.flatten.map (·.key feed)) ∧
      r'.items.length + r.created ≤ r.items.length + r'.created ∧
      (r'.items.length + r.created = r.items.length + r'.created ↔
        ChunksDistinct feed r.items chunks) := by
  induction chunks generalizing r with
  | nil =>
    refine ⟨r, rfl, ho, List.prefix_rfl, fun k => by simp, Nat.le_refl _, iff_of_true rfl ?_⟩
    exact fun before chunk after h => absurd h (by simp)
  | cons chunk chunks ih =>
    have hf' : ∀ p ∈ chunk, fits p := fun p hp => hf p (by simp [hp])
    obtain ⟨r', hrun, ho', hpre, hkeys, hle, heq⟩ :=
      ih ⟨afterChunk mint feed chunk r.items, r.created + (missing feed r.items chunk).length⟩
        ho.afterChunk fun p hp => hf p (by simp [List.mem_flatten.mp hp])
    obtain ⟨hchunk, hexact⟩ := length_afterChunk mint chunk ho
    dsimp only at hkeys hle heq hpre
    refine ⟨r', ?_, ho', prefix_afterChunk.trans hpre, fun k => ?_, by omega, ?_⟩
    · rw [forEach_cons_ok (by rw [countChunk_eq hf']), countChunk_eq hf']
      exact hrun
    · rw [hkeys, mem_keys_afterChunk, List.flatten_cons, List.map_append, List.mem_append, or_assoc]
    · rw [chunksDistinct_cons mint, ← hexact, ← heq]
      omega

/-- The loop over chunks whose keys are all there. -/
theorem countChunks_again (ho : FeedOwned feed items)
    (hk : ∀ p ∈ chunks.flatten, p.key feed ∈ items.map FeedItem.key)
    (hf : ∀ p ∈ chunks.flatten, fits p) :
    forEach (countChunk fits mint feed) chunks { items } = ({ items }, .ok ()) := by
  induction chunks with
  | nil => rfl
  | cons chunk chunks ih =>
    simp only [List.flatten_cons, List.forall_mem_append] at hk hf
    obtain ⟨hm, ha⟩ := afterChunk_eq_self mint ho hk.1
    have hstep : countChunk fits mint feed chunk { items } = ({ items }, .ok ()) := by
      rw [countChunk_eq hf.1, hm, ha]
      rfl
    rw [forEach_cons_ok (by rw [hstep]), hstep]
    exact ih hk.2 hf.2

/-- With the default size it is `recordItems`. -/
theorem recordItems_eq_count {payloads : Generator SourceError SourcePayload} :
    recordItems fits mint feed payloads items =
      ((recordItemsCount fits mint feed recordChunkSize payloads items).1,
        (recordItemsCount fits mint feed recordChunkSize payloads items).2.map fun _ => ()) := by
  have hloop : ∀ chunks (r : Recording), recordChunks fits mint feed chunks r.items =
      ((forEach (countChunk fits mint feed) chunks r).1.items,
        (forEach (countChunk fits mint feed) chunks r).2) := by
    intro chunks
    induction chunks with
    | nil => exact fun _ => rfl
    | cons chunk chunks ih =>
      intro r
      unfold recordChunks forEach countChunk recordChunkCount
      cases recordChunk fits mint feed chunk r.items with
      | error e => rfl
      | ok items' => exact ih ⟨items', _⟩
  have hchunks : chunksOf payloads = chunksBy recordChunkSize payloads := rfl
  rw [recordItems, hchunks, hloop _ { items }, recordItemsCount]
  generalize forEach (countChunk fits mint feed) (chunksBy recordChunkSize payloads) { items } = x
  obtain ⟨r, outcome⟩ := x
  cases outcome with
  | error e => rfl
  | ok u => cases payloads.outcome <;> rfl

variable (mint feed items) in
/-- A recording returns when the database takes every payload. -/
theorem recordItems_of_fits (hf : ∀ p ∈ payloads, fits p) :
    (recordItems fits mint feed ⟨payloads, .ok ()⟩ items).2 = .ok () := by
  refine recordItems_ok.mpr ⟨recordChunks_ok.mpr fun before chunk after h p hp => hf p ?_, rfl⟩
  have hflat : (chunksOf ⟨payloads, .ok ()⟩).flatten = payloads := flatten_chunksOf rfl
  rw [← hflat, h]
  exact List.mem_flatten.mpr ⟨chunk, by simp, List.mem_of_mem_filter hp⟩

variable (mint feed items) in
/-- **A recording of payloads that the database takes.** -/
theorem recordItemsCount_of_fits (hf : ∀ p ∈ payloads, fits p) : ∃ items' new,
    recordItemsCount fits mint feed recordChunkSize ⟨payloads, .ok ()⟩ items = (items', .ok new) ∧
      ∀ k, k ∈ items'.map FeedItem.key ↔
        k ∈ items.map FeedItem.key ∨ ∃ p ∈ payloads, p.key feed = k := by
  have hok := recordItems_of_fits mint feed items hf
  have hkeys := fun k => mem_keys_recordItems hok (k := k)
  rw [recordItems_eq_count] at hok hkeys
  generalize recordItemsCount fits mint feed recordChunkSize ⟨payloads, .ok ()⟩ items = x
    at hok hkeys ⊢
  obtain ⟨items', outcome⟩ := x
  cases outcome with
  | error e => cases hok
  | ok new => exact ⟨items', new, rfl, hkeys⟩

/-- **A recording makes the union and counts what it adds** exactly when no chunk holds a new key
twice. -/
theorem recordsUnion_iff (hn : 0 < chunkSize) (ho : FeedOwned feed items)
    (hf : ∀ p ∈ payloads, fits p) : RecordsUnion fits mint feed items chunkSize payloads ↔
      ChunksDistinct feed items (batched chunkSize payloads) := by
  have hflat : (batched chunkSize payloads).flatten = payloads := flatten_batched hn payloads
  rw [← hflat] at hf
  obtain ⟨r, hrun, ho', hpre, hkeys, -, heq⟩ :=
    countChunks_spec mint { items } ho hf
  have hout : recorded fits mint feed items chunkSize payloads = (r.items, .ok r.created) := by
    rw [recorded, recordItemsCount, chunksBy, hrun]
    rfl
  rw [hflat] at hkeys
  rw [← heq]
  constructor
  · intro h
    obtain ⟨created, hok, hlen⟩ := h.count
    rw [hout] at hok hlen
    rw [Except.ok.inj hok]
    exact hlen
  · intro hlen
    refine ⟨fun k => ?_, hout ▸ hpre, ⟨r.created, by rw [hout], by rw [hout]; exact hlen⟩, fun mint' => ?_⟩
    · rw [hout, hkeys]
      exact or_congr_right List.mem_map
    · rw [hout, recorded, recordItemsCount, chunksBy, countChunks_again ho' (fun p hp => ?_) hf]
      · rfl
      · exact (hkeys _).mpr (.inr (List.mem_map_of_mem (hflat ▸ hp)))

end Run

/-! ## A key twice in one chunk -/

/-- A post. -/
def countedPost : SourcePayload :=
  { externalId := "a", kind := "new_post", occurredAt := .aware 0, source := "rss" }

/-- Two posts are recorded, each in a chunk of its own. -/
theorem records_sample : RecordsUnion (fun _ => true) (fun _ => 1) ⟨1, 1⟩ [] 1
      [countedPost, countedPost] ↔
    ChunksDistinct ⟨1, 1⟩ [] (batched 1 [countedPost, countedPost]) :=
  recordsUnion_iff (by decide) nofun (fun _ _ => rfl)

/-- **A key twice in one chunk is counted twice**: one row is added, the count is two. -/
theorem count_exceeds : ¬ ∀ (payloads : List SourcePayload) (chunkSize : ℕ), 0 < chunkSize →
    RecordsUnion (fun _ => true) (fun _ => 1) ⟨1, 1⟩ [] chunkSize payloads := by
  intro h
  obtain ⟨created, hok, hlen⟩ := (h [countedPost, countedPost] 200 (by decide)).count
  have hitems : (recorded (fun _ => true) (fun _ => 1) ⟨1, 1⟩ [] 200
      [countedPost, countedPost]).1.length = 1 := rfl
  obtain rfl := Except.ok.inj (hok : Except.ok 2 = Except.ok created)
  cases hitems.symm.trans hlen

end FeedItemService

end OpenMagpie
