import Mathlib.Algebra.Order.Ring.Rat
import Mathlib.Data.List.Nodup
import Mathlib.Data.Rat.Cast.Order
import Mathlib.Tactic.NormNum
import OpenMagpie.Feeds.WalkContainment
import OpenMagpie.Lib.Keyset

/-!
# Catching up on Hacker News

The walk over the search's pages reads the items since the watermark, newest first. Its cursor is
inclusive, so the items of a page's last second are read again with the next page; and it asks for the
items from the watermark's second on, some of which may be older than the watermark.

* `HackerNewsItem`, `ServesItems`: an item, and a service that serves a fixed set of them.
* `Drains`: a walk yields every item since the watermark and nothing older.
* `recent`, `HackerNewsItem.SharesSecond`: the items since the watermark; an older one of its second.
* **`walk_drains_iff`**: that holds exactly when the items since the watermark fit into the walk's pages,
  and no older one of its second fits behind them.
* **`full_cap_gaps`**: `page_size * max_pages` items of different seconds do not fit.
-/

set_option autoImplicit false

namespace OpenMagpie

open Python

/-! ## What the service serves -/

/-- An item of the search's index: its hit, its second and its payload. -/
structure HackerNewsItem where
  hit : Dict
  createdAt : ℤ
  payload : SourcePayload

/-- The hit carries the second, and gives the payload. -/
structure HackerNewsItem.IsItem (X : Reader) (toPayload : Dict → Time → Except Raised SourcePayload)
    (i : HackerNewsItem) : Prop where
  created : i.hit.get "created_at_i" = .int i.createdAt
  payload : ∃ t, X.fromtimestamp i.createdAt = some t ∧ toPayload i.hit t = .ok i.payload

/-- The `numericFilters` of a request. -/
def HackerNewsItem.inWindow (since before : Option ℤ) (i : HackerNewsItem) : Bool :=
  since.all (fun s => decide (s ≤ i.createdAt)) && before.all fun b => decide (i.createdAt ≤ b)

/-- The items that a request selects, newest first. -/
def searched (items : List HackerNewsItem) (since before : Option ℤ) : List HackerNewsItem :=
  items.filter fun i => i.inWindow since before

/-- The item is not older than the watermark. -/
def HackerNewsItem.IsSince (X : Reader) (since : Option Time) (i : HackerNewsItem) : Prop :=
  ∀ s ∈ since, X.timestamp s ≤ i.createdAt

instance (X : Reader) (since : Option Time) (i : HackerNewsItem) : Decidable (i.IsSince X since) := by
  unfold HackerNewsItem.IsSince
  infer_instance

/-- The items since the watermark. -/
def recent (X : Reader) (q : AlgoliaQuery) (items : List HackerNewsItem) : List HackerNewsItem :=
  items.filter fun i => decide (i.IsSince X q.since)

/-- The item is older than the watermark, but of its second or later: the requests select it. -/
def HackerNewsItem.SharesSecond (X : Reader) (q : AlgoliaQuery) (i : HackerNewsItem) : Prop :=
  (∀ s ∈ AlgoliaSearch.sinceSecond X q, s ≤ i.createdAt) ∧ ¬ i.IsSince X q.since

namespace AlgoliaSearch

variable (X : Reader) (S : AlgoliaSearch) (q : AlgoliaQuery) (up : Upstream)
  (items : List HackerNewsItem)

/-- The service answers with the newest items that the request selects, as many as a page holds. -/
def ServesItems : Prop := ∀ page before, (∀ b ∈ before, ∃ i ∈ items, i.createdAt = b) →
  PageHits S (answer X S q up page before)
    (((searched items (sinceSecond X q) before).take S.pageSize).map fun i => .dict i.hit)

/-- **The walk yields every item since the watermark, and nothing older.** -/
structure Drains (payloads : Generator SourceError SourcePayload) : Prop where
  outcome : payloads.outcome = .ok ()
  all : ∀ i ∈ items, i.IsSince X q.since → i.payload ∈ payloads.yielded
  only : ∀ p ∈ payloads.yielded, ∃ i ∈ items, i.IsSince X q.since ∧ i.payload = p

end AlgoliaSearch

/-! ## The walk -/

section Walk

variable {X : Reader} {S : AlgoliaSearch} {q : AlgoliaQuery} {up : Upstream}
  {toPayload : Dict → Time → Except Raised SourcePayload} {items : List HackerNewsItem}

open AlgoliaSearch

theorem mem_searched {since before : Option ℤ} {i : HackerNewsItem} :
    i ∈ searched items since before ↔
      i ∈ items ∧ (∀ s ∈ since, s ≤ i.createdAt) ∧ ∀ b ∈ before, i.createdAt ≤ b := by
  simp only [searched, HackerNewsItem.inWindow, List.mem_filter, Bool.and_eq_true, Option.all_eq_true,
    decide_eq_true_eq]
  exact Iff.rfl

/-- A later page selects what the cursor lets in of the page before. -/
theorem searched_boundary {since before : Option ℤ} {b : ℤ} (hb : ∀ c ∈ before, b ≤ c) :
    searched items since (some b) =
      Keyset.upTo HackerNewsItem.createdAt b (searched items since before) := by
  rw [Keyset.upTo, searched, searched, List.filter_filter]
  refine List.filter_congr fun i _ => Bool.eq_iff_iff.mpr ?_
  simp only [HackerNewsItem.inWindow, Bool.and_eq_true, Option.all_eq_true,
    decide_eq_true_eq, Option.some.injEq, forall_eq']
  exact ⟨fun h => ⟨h.2, h.1, fun c hc => le_trans h.2 (hb c hc)⟩, fun h => ⟨h.2.1, h.1⟩⟩

/-- The loop over an item's hit yields its payload and its second. -/
theorem hit_of_isItem {i : HackerNewsItem} (h : i.IsItem X toPayload) :
    AlgoliaSearch.hit X toPayload (.dict i.hit) = .ok (some (i.payload, i.createdAt)) := by
  obtain ⟨t, ht, hp⟩ := h.payload
  have hq : Int.tdiv (i.createdAt : ℚ).num (i.createdAt : ℚ).den = i.createdAt := by
    simp
  simp only [AlgoliaSearch.hit, Value.asDict, h.created, Value.asNumber, ht, buildPayload, hp, hq]
  rfl

theorem ofList_hits {xs : List HackerNewsItem} (h : ∀ i ∈ xs, i.IsItem X toPayload) :
    Generator.ofList (AlgoliaSearch.hit X toPayload) (xs.map fun i => .dict i.hit) =
      ⟨xs.map fun i => (i.payload, i.createdAt), .ok ()⟩ := by
  induction xs with
  | nil => rfl
  | cons i xs ih =>
    obtain ⟨hi, h⟩ := List.forall_mem_cons.mp h
    rw [List.map_cons, Generator.ofList, hit_of_isItem hi, ih h]
    rfl

/-- One page and the older ones. -/
theorem walkFrom_of_page {n page : ℕ} {before : Option ℤ} {hits : List Value}
    (hp : getPage X S q up page before = .ok hits) (hne : hits ≠ []) :
    walkFrom X S q up toPayload (n + 1) page before =
      ((Generator.ofList (AlgoliaSearch.hit X toPayload) hits).map (·.1)).append
        (match oldest (Generator.ofList (AlgoliaSearch.hit X toPayload) hits).yielded with
          | some oldest =>
            if hits.length < S.pageSize then ⟨[], .ok ()⟩
            else walkFrom X S q up toPayload n (page + 1) (some oldest)
          | none => ⟨[], .ok ()⟩) := by
  rw [walkFrom, hp]
  cases hits with
  | nil => exact absurd rfl hne
  | cons x hits => rfl

/-- **The pages of a walk** are the pages of the items that its first request selects. -/
theorem walkFrom_eq (hs : 0 < S.pageSize) (hitems : ∀ i ∈ items, i.IsItem X toPayload)
    (hserves : ServesItems X S q up items) (n page : ℕ) {before : Option ℤ}
    (hbefore : ∀ b ∈ before, ∃ i ∈ items, i.createdAt = b) :
    walkFrom X S q up toPayload n page before =
      ⟨(Keyset.walk HackerNewsItem.createdAt S.pageSize n
        (searched items (sinceSecond X q) before)).map (·.payload), .ok ()⟩ := by
  induction n generalizing page before with
  | zero => rfl
  | succ n ih =>
    generalize hxs : searched items (sinceSecond X q) before = xs
    have hmem : ∀ i ∈ xs.take S.pageSize, i ∈ searched items (sinceSecond X q) before :=
      fun i hi => hxs ▸ List.mem_of_mem_take hi
    have hpage : getPage X S q up page before =
        .ok ((xs.take S.pageSize).map fun i => .dict i.hit) :=
      getPage_ok.mpr (hxs ▸ hserves page before hbefore)
    by_cases hnil : xs = []
    · subst hnil
      rw [walkFrom, hpage, Keyset.walk, if_pos (by simpa using hs), List.take_nil]
      rfl
    · obtain ⟨b, hb⟩ := Keyset.exists_boundary (f := HackerNewsItem.createdAt) hnil hs
      obtain ⟨i, hi, hib⟩ := List.mem_map.mp (List.min?_mem hb)
      have hloop : Generator.ofList (AlgoliaSearch.hit X toPayload)
          ((xs.take S.pageSize).map fun i => .dict i.hit) =
          ⟨(xs.take S.pageSize).map fun i => (i.payload, i.createdAt), .ok ()⟩ :=
        ofList_hits fun i hi => hitems i (mem_searched.mp (hmem i hi)).1
      have holdest : oldest ((xs.take S.pageSize).map fun i => (i.payload, i.createdAt)) = some b := by
        rw [oldest, List.map_map]
        exact hb
      have hcursor : searched items (sinceSecond X q) (some b) =
          Keyset.upTo HackerNewsItem.createdAt b xs := by
        rw [searched_boundary fun c hc => hib ▸ (mem_searched.mp (hmem i hi)).2.2 c hc, hxs]
      have hbefore' : ∀ c ∈ some b, ∃ i ∈ items, i.createdAt = c :=
        fun _ hc => Option.some.inj hc ▸ ⟨i, (mem_searched.mp (hmem i hi)).1, hib⟩
      have hrest := ih (page + 1) hbefore'
      have hlen : ((xs.take S.pageSize).map fun i => Value.dict i.hit).length < S.pageSize ↔
          xs.length < S.pageSize := by
        rw [List.length_map, List.length_take]
        omega
      have hhits : (xs.take S.pageSize).map (fun i => Value.dict i.hit) ≠ [] := fun h => by
        rcases List.take_eq_nil_iff.mp (List.map_eq_nil_iff.mp h) with h | h
        · omega
        · exact hnil h
      have hpayloads : ((xs.take S.pageSize).map fun i => (i.payload, i.createdAt)).map (·.1) =
          (xs.take S.pageSize).map (·.payload) := List.map_map
      rw [walkFrom_of_page hpage hhits, hloop, Keyset.walk, hb, Generator.map, hpayloads]
      dsimp only
      rw [holdest]
      dsimp only
      by_cases hshort : xs.length < S.pageSize
      · rw [if_pos (hlen.mpr hshort), if_pos hshort, List.append_nil]
        exact congrArg (Generator.mk · _) (List.append_nil _)
      · rw [if_neg (mt hlen.mp hshort), if_neg hshort, hrest, hcursor]
        exact congrArg (Generator.mk · _) List.map_append.symm

/-- What a walk yields is what its pages show. -/
theorem drains_iff_covers (hs : 0 < S.pageSize) (hitems : ∀ i ∈ items, i.IsItem X toPayload)
    (hids : (items.map (·.payload.externalId)).Nodup) (hserves : ServesItems X S q up items) :
    Drains X q items (AlgoliaSearch.walk X S q up toPayload) ↔
      ∀ i ∈ items, i ∈ Keyset.walk HackerNewsItem.createdAt S.pageSize S.maxPages
        (searched items (sinceSecond X q) none) ↔ i.IsSince X q.since := by
  have hsub : ∀ i ∈ Keyset.walk HackerNewsItem.createdAt S.pageSize S.maxPages
      (searched items (sinceSecond X q) none), i ∈ items := fun i hi =>
    (mem_searched.mp (Keyset.mem_of_mem_walk hi)).1
  have hwalk := walkFrom_eq hs hitems hserves S.maxPages 0
    fun b (hb : b ∈ (none : Option ℤ)) => nomatch hb
  rw [AlgoliaSearch.walk, hwalk]
  constructor
  · intro h i hi
    constructor
    · intro hw
      obtain ⟨j, hj, hsince, he⟩ := h.only i.payload (List.mem_map_of_mem hw)
      obtain rfl := List.inj_on_of_nodup_map hids hj hi (congrArg _ he)
      exact hsince
    · intro hsince
      obtain ⟨j, hj, he⟩ := List.mem_map.mp (h.all i hi hsince)
      obtain rfl := List.inj_on_of_nodup_map hids (hsub j hj) hi (congrArg _ he)
      exact hj
  · intro h
    refine ⟨rfl, fun i hi hsince => List.mem_map_of_mem ((h i hi).mpr hsince), fun p hp => ?_⟩
    obtain ⟨i, hi, rfl⟩ := List.mem_map.mp hp
    exact ⟨i, hsub i hi, (h i (hsub i hi)).mp hi, rfl⟩

theorem newest_searched {since before : Option ℤ} (h : Newest.Newest HackerNewsItem.createdAt items) :
    Newest.Newest HackerNewsItem.createdAt (searched items since before) :=
  h.sublist List.filter_sublist

/-- A second is not before the whole second of a time that is not after it. -/
theorem tdiv_le_of_le {t : ℚ} {second : ℤ} (h : t ≤ second) : t.num.tdiv t.den ≤ second := by
  have hden : (0 : ℤ) < t.den := Int.natCast_pos.mpr t.den_pos
  have hnum : t.num ≤ second * t.den := by simpa using (Rat.le_iff t second).mp h
  exact (Int.tdiv_le_tdiv hden hnum).trans (Int.mul_tdiv_cancel second hden.ne').le

/-- The requests select every item since the watermark. -/
theorem HackerNewsItem.IsSince.second_le {i : HackerNewsItem} (h : i.IsSince X q.since) :
    ∀ s ∈ sinceSecond X q, s ≤ i.createdAt := by
  intro s hs
  obtain ⟨t, ht, rfl⟩ := Option.map_eq_some_iff.mp hs
  exact tdiv_le_of_le (h t ht)

/-- **What the requests select**: the items since the watermark, and behind them the older ones of its
second. -/
theorem searched_eq_append (h : Newest.Newest HackerNewsItem.createdAt items) :
    ∃ older, searched items (sinceSecond X q) none = recent X q items ++ older ∧
      (∀ i, i ∈ older ↔ i ∈ items ∧ i.SharesSecond X q) ∧
      ∀ i ∈ recent X q items, ∀ j ∈ older, j.createdAt < i.createdAt := by
  have hrecent : recent X q items =
      (searched items (sinceSecond X q) none).filter fun i => decide (i.IsSince X q.since) := by
    rw [recent, searched, List.filter_filter]
    refine List.filter_congr fun i _ => Bool.eq_iff_iff.mpr ?_
    simp only [HackerNewsItem.inWindow, Bool.and_eq_true, decide_eq_true_eq, Option.all_eq_true,
      Option.all_none, and_true]
    exact ⟨fun hi => ⟨hi, hi.second_le⟩, And.left⟩
  refine ⟨(searched items (sinceSecond X q) none).filter fun i => decide (¬ i.IsSince X q.since),
    ?_, fun i => ?_, fun i hi j hj => ?_⟩
  · rw [hrecent]
    cases hsince : q.since with
    | none => simp [HackerNewsItem.IsSince]
    | some t =>
      have hnewest : Newest.Newest (fun i : HackerNewsItem => (i.createdAt : ℚ))
          (searched items (sinceSecond X q) none) :=
        (newest_searched h).imp fun hij => Int.cast_le.mpr hij
      simpa [HackerNewsItem.IsSince] using
        (Newest.filter_append_filter (c := X.timestamp t) hnewest).symm
  · simp only [List.mem_filter, mem_searched, decide_eq_true_eq, HackerNewsItem.SharesSecond]
    simp [and_assoc]
  · have hsince : i.IsSince X q.since := of_decide_eq_true (List.mem_filter.mp hi).2
    have hold : ¬ j.IsSince X q.since := of_decide_eq_true (List.mem_filter.mp hj).2
    refine lt_of_not_ge fun hle => hold fun s hs => ?_
    exact (hsince s hs).trans (Int.cast_le.mpr hle)

variable (up) in
/-- **The walk drains the items since the watermark** exactly when they fit into its pages, and no older
item of the watermark's second fits behind them. -/
theorem walk_drains_iff (hs : 0 < S.pageSize) (hitems : ∀ i ∈ items, i.IsItem X toPayload)
    (hids : (items.map (·.payload.externalId)).Nodup)
    (hnewest : Newest.Newest HackerNewsItem.createdAt items) (hserves : ServesItems X S q up items) :
    Drains X q items (AlgoliaSearch.walk X S q up toPayload) ↔
      Keyset.Fits HackerNewsItem.createdAt S.pageSize S.maxPages (recent X q items) ∧
      ∀ i ∈ items, i.SharesSecond X q →
        ¬ Keyset.Fits HackerNewsItem.createdAt S.pageSize S.maxPages (recent X q items ++ [i]) := by
  obtain ⟨older, heq, hmem, hlt⟩ := searched_eq_append (X := X) (q := q) hnewest
  have hnew : Newest.Newest HackerNewsItem.createdAt (recent X q items) :=
    hnewest.sublist List.filter_sublist
  have hnodup : (recent X q items).Nodup := (List.Nodup.of_map _ hids).filter _
  have hrecent : ∀ i, i ∈ recent X q items ↔ i ∈ items ∧ i.IsSince X q.since := fun i => by
    rw [recent, List.mem_filter, decide_eq_true_eq]
  have hnone := not_congr (Keyset.exists_mem_walk_append_iff (n := S.maxPages) hs hlt)
  simp only [not_exists, not_and] at hnone
  rw [drains_iff_covers hs hitems hids hserves, heq, ← Keyset.walk_covers_iff hs hnew hnodup]
  constructor
  · intro h
    refine ⟨fun i hi => ?_, fun i hi hshares => ?_⟩
    · obtain ⟨hi', hsince⟩ := (hrecent i).mp hi
      exact (Keyset.mem_walk_append_left hs hlt hi).mp ((h i hi').mpr hsince)
    · refine hnone.mp (fun j hj hw => ?_) i ((hmem i).mpr ⟨hi, hshares⟩)
      obtain ⟨hj', hshares'⟩ := (hmem j).mp hj
      exact hshares'.2 ((h j hj').mp hw)
  · rintro ⟨hcovers, hold⟩ i hi
    constructor
    · intro hw
      by_contra hsince
      rcases List.mem_append.mp (Keyset.mem_of_mem_walk hw) with hrec | holder
      · exact hsince ((hrecent i).mp hrec).2
      · exact hnone.mpr (fun j hj => hold j ((hmem j).mp hj).1 ((hmem j).mp hj).2) i holder hw
    · intro hsince
      have hi' := (hrecent i).mpr ⟨hi, hsince⟩
      exact (Keyset.mem_walk_append_left hs hlt hi').mpr (hcovers i hi')

/-- A watermark of a whole second shares it with no older item. -/
theorem not_sharesSecond {i : HackerNewsItem}
    (h : ∀ s ∈ q.since, ∃ second : ℤ, X.timestamp s = second) : ¬ i.SharesSecond X q := by
  rintro ⟨hsecond, hold⟩
  refine hold fun s hs => ?_
  obtain ⟨second, hts⟩ := h s hs
  have hle := hsecond _ (Option.map_eq_some_iff.mpr ⟨s, hs, rfl⟩)
  rw [hts] at hle ⊢
  simpa using hle

end Walk

/-! ## Four items of four seconds -/

/-- Readers that only take ASCII; times are in microseconds. -/
def searchReader : Reader where
  repr _ := ""
  parseInt _ := none
  fromisoformat _ := none
  strip := id
  collapse := id
  textNodes _ := none
  fromtimestamp q := some (q.num * 1000000 / q.den)
  timestamp t := mkRat t 1000000
  integerField _ := none
  validStrings _ := true

/-- An item of a second. -/
def itemAt (second : ℕ) : HackerNewsItem where
  hit := [("objectID", .str (toString second)), ("created_at_i", .int second)]
  createdAt := second
  payload :=
    { externalId := toString second, kind := "hn_feed", occurredAt := .aware (second * 1000000)
      source := "hn_feed" }

/-- The payload of an item's hit. -/
def itemPayload (_ : Dict) (t : Time) : Except Raised SourcePayload :=
  .ok (itemAt (t / 1000000).toNat).payload

/-- The items of the seconds 4 to 1. -/
def fourItems : List HackerNewsItem := [itemAt 4, itemAt 3, itemAt 2, itemAt 1]

/-- A query without a keyword. -/
def storiesSince (since : Option Time) : AlgoliaQuery :=
  { tag := "story", since, query := "", anyWord := false, restrict := [] }

/-- Two pages of two items. -/
def twoPages : AlgoliaSearch := { pageSize := 2, maxPages := 2 }

/-- The service with the four items. -/
def fourStories (since : Option Time) : Upstream where
  get _ request := match request with
    | .searchByDate params =>
      let befores : List (Option ℤ) := [none, some 4, some 3, some 2, some 1]
      match befores.find? fun b =>
          AlgoliaSearch.params searchReader twoPages (storiesSince since) b == params with
      | some before => .response
          { status := 200
            body := .json (.dict [("hits", .list (((searched fourItems
              (AlgoliaSearch.sinceSecond searchReader (storiesSince since)) before).take 2).map
                fun i => .dict i.hit))]) }
      | none => .httpError
    | _ => .httpError

theorem isItem_itemAt (second : ℕ) : (itemAt second).IsItem searchReader itemPayload :=
  ⟨rfl, second * 1000000, by simp [itemAt, searchReader], by simp [itemPayload]⟩

theorem servesItems_fourStories {since : Option Time}
    (h : since = none ∨ since = some 2000000 ∨ since = some 2500000) :
    AlgoliaSearch.ServesItems searchReader twoPages (storiesSince since) (fourStories since)
      fourItems := by
  intro page before hb
  have hcases : before ∈ ([none, some 4, some 3, some 2, some 1] : List (Option ℤ)) := by
    cases before with
    | none => exact List.mem_cons_self
    | some b =>
      obtain ⟨i, hi, rfl⟩ := hb b rfl
      exact List.mem_cons_of_mem _ (List.mem_map_of_mem (f := fun i => some i.createdAt) hi)
  simp only [List.mem_cons, List.not_mem_nil, or_false] at hcases
  rcases h with rfl | rfl | rfl <;> rcases hcases with rfl | rfl | rfl | rfl | rfl <;>
    exact ⟨_, _, rfl, ⟨by decide, by decide⟩, by decide, rfl, rfl⟩

theorem isItem_fourItems : ∀ i ∈ fourItems, i.IsItem searchReader itemPayload :=
  List.forall_mem_cons.mpr ⟨isItem_itemAt 4, List.forall_mem_cons.mpr ⟨isItem_itemAt 3,
    List.forall_mem_cons.mpr ⟨isItem_itemAt 2, List.forall_mem_singleton.mpr (isItem_itemAt 1)⟩⟩⟩

theorem strict_fourItems : fourItems.Pairwise fun i j => j.createdAt < i.createdAt := by decide

theorem nodup_fourItems : (fourItems.map (·.payload.externalId)).Nodup := by decide

theorem newest_fourItems : Newest.Newest HackerNewsItem.createdAt fourItems := by
  unfold Newest.Newest
  decide

/-- Two pages of two drain the three items since second 2. -/
theorem walk_drains_sample : AlgoliaSearch.Drains searchReader (storiesSince (some 2000000)) fourItems
    (AlgoliaSearch.walk searchReader twoPages (storiesSince (some 2000000))
      (fourStories (some 2000000)) itemPayload) := by
  refine (walk_drains_iff (fourStories (some 2000000)) (by decide) isItem_fourItems (by decide)
    newest_fourItems (servesItems_fourStories (.inr (.inl rfl)))).mpr ⟨?_, fun i _ hi => ?_⟩
  · exact .inr ⟨3, rfl, .inl (by decide)⟩
  · refine absurd hi (not_sharesSecond fun s hs => ⟨2, ?_⟩)
    obtain rfl := Option.some.inj hs
    rfl

/-- **`page_size * max_pages` items of different seconds are not drained**: each page after the first
reads one item again. And half a second after an item, the walk reads it although it is older. -/
theorem full_cap_gaps :
    (¬ ∀ (S : AlgoliaSearch) (up : Upstream) (items : List HackerNewsItem),
      2 ≤ S.pageSize → 1 ≤ S.maxPages → (∀ i ∈ items, i.IsItem searchReader itemPayload) →
      (items.map (·.payload.externalId)).Nodup →
      Newest.Newest HackerNewsItem.createdAt items →
      AlgoliaSearch.ServesItems searchReader S (storiesSince none) up items →
      (∀ t : ℤ, (items.filter fun i => decide (i.createdAt = t)).length < S.pageSize) →
      (recent searchReader (storiesSince none) items).length ≤ S.pageSize * S.maxPages →
      AlgoliaSearch.Drains searchReader (storiesSince none) items
        (AlgoliaSearch.walk searchReader S (storiesSince none) up itemPayload)) ∧
    ¬ AlgoliaSearch.Drains searchReader (storiesSince (some 2500000)) fourItems
      (AlgoliaSearch.walk searchReader twoPages (storiesSince (some 2500000))
        (fourStories (some 2500000)) itemPayload) := by
  constructor
  · intro h
    have hserves := @servesItems_fourStories none (.inl rfl)
    have hties (t : ℤ) : (fourItems.filter fun i => decide (i.createdAt = t)).length < 2 := by
      have hn : (fourItems.map HackerNewsItem.createdAt).Nodup := by decide
      have hcount : (fourItems.map HackerNewsItem.createdAt).count t =
          (fourItems.filter fun i => decide (i.createdAt = t)).length := by
        rw [List.count_eq_length_filter, List.filter_map, List.length_map]
        rfl
      exact hcount ▸ Nat.lt_succ_of_le (List.nodup_iff_count_le_one.mp hn t)
    have hdrains := h twoPages (fourStories none) fourItems (by decide) (by decide) isItem_fourItems
      (by decide) newest_fourItems hserves hties (by decide)
    have hcovers := (drains_iff_covers (by decide) isItem_fourItems (by decide) hserves).mp hdrains
    have hall : ∀ i ∈ fourItems, i ∈ Keyset.walk HackerNewsItem.createdAt 2 2 fourItems :=
      fun i hi => (hcovers i hi).mpr fun s hs => by cases hs
    have hfits :=
      (Keyset.walk_covers_iff (by decide) newest_fourItems (.of_map _ nodup_fourItems)).mp hall
    exact absurd ((Keyset.fits_iff_of_strict (by decide) strict_fourItems).mp hfits) (by decide)
  · intro hdrains
    have hcovers := (drains_iff_covers (by decide) isItem_fourItems (by decide)
      (servesItems_fourStories (.inr (.inr rfl)))).mp hdrains
    have hread : itemAt 2 ∈ [itemAt 4, itemAt 3, itemAt 3, itemAt 2] := by simp
    have hsince := (hcovers (itemAt 2) (by simp [fourItems])).mp hread
    exact absurd (hsince 2500000 rfl) (by decide)

end OpenMagpie
