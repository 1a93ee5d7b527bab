import OpenMagpie.Feeds.Ties

/-!
# A repository found by the radar and by the search

A feed may carry an events source and a search source. Both name the item of a repository by its
`full_name`, each under its own kind; an item is unique by feed, kind and external id.

* `FeedStep`, `feedAfter`: the polls of a feed and its retention prunes, in any order.
* `creation_key`, `result_key`: the keys of the two payloads of a repository.
* `DeliveredCreation`, `DeliveredResult`: the repository has been delivered by either source.
* `Pruned`: a prune removed an item and no later poll delivered it; `stored_iff_not_pruned`.
* **`one_item_iff`**: of a repository that both sources have delivered, the feed has exactly one item
  when the prune has removed the other one.
* **`two_items`**: a creation event and a search result, two items.
-/

set_option autoImplicit false

namespace OpenMagpie

open Python Split

/-! ## The life of a feed's items -/

/-- A step of a feed: a poll of a GitHub source under any watermark, a poll of another source, or the
retention prune. -/
inductive FeedStep
  | poll (src : GitHubSource) (up : Upstream) (since : Option Time) (mint : SourcePayload → Id)
      (fits : SourcePayload → Bool)
  | other (payloads : Generator SourceError SourcePayload) (mint : SourcePayload → Id)
      (fits : SourcePayload → Bool)
  | prune (cutoff : Id)

variable (X : Reader) (feed : Feed) (items₀ : List FeedItem)

/-- The rows that `prune_items` deletes. -/
def Expired (cutoff : Id) (i : FeedItem) : Prop :=
  i.accountId = feed.accountId ∧ i.feedId = feed.id ∧ i.id < cutoff

instance (cutoff : Id) : DecidablePred (Expired feed cutoff) := fun _ => by
  unfold Expired; infer_instance

/-- What a step yields. -/
def FeedStep.yielded : FeedStep → List SourcePayload
  | .poll src up since _ _ => (src.poll X up since).yielded
  | .other payloads _ _ => payloads.yielded
  | .prune _ => []

/-- The items after a step. -/
def FeedStep.run (items : List FeedItem) : FeedStep → List FeedItem
  | .poll src up since mint fits =>
    (FeedItemService.recordItems fits mint feed (src.poll X up since) items).1
  | .other payloads mint fits => (FeedItemService.recordItems fits mint feed payloads items).1
  | .prune cutoff => items.filter fun i => decide (¬ Expired feed cutoff i)

/-- The items after a history, which lists the latest step first. -/
def feedAfter : List FeedStep → List FeedItem
  | [] => items₀
  | s :: older => s.run X feed (feedAfter older)

/-- The step yields a payload of the key, and its item is there afterwards. -/
def FeedStep.Delivers (s : FeedStep) (older : List FeedStep) (k : ItemKey) : Prop :=
  (∃ p ∈ s.yielded X, p.key feed = k) ∧
    k ∈ (feedAfter X feed items₀ (s :: older)).map FeedItem.key

/-- The step deletes the item of the key. -/
def FeedStep.Removes (s : FeedStep) (older : List FeedStep) (k : ItemKey) : Prop :=
  ∃ cutoff, s = .prune cutoff ∧ ∃ i ∈ feedAfter X feed items₀ older, i.key = k ∧ Expired feed cutoff i

/-- Some step has delivered the item. -/
def DeliveredItem (history : List FeedStep) (k : ItemKey) : Prop :=
  ∃ later s older, history = later ++ s :: older ∧ s.Delivers X feed items₀ older k

/-- A prune has removed the item, and no later step has delivered it. -/
def Pruned (history : List FeedStep) (k : ItemKey) : Prop :=
  ∃ later s older, history = later ++ s :: older ∧ s.Removes X feed items₀ older k ∧
    ∀ l s' o, later = l ++ s' :: o → ¬ s'.Delivers X feed items₀ (o ++ s :: older) k

/-! ## A repository -/

/-- The step is a poll that finds the event which creates the repository. -/
def FeedStep.FindsCreation (r : String) : FeedStep → Prop
  | .poll (.events spec) up since _ _ =>
    ∃ p ∈ (GitHubEventsConnector.poll X up spec since).yielded, p.eventType = "create" ∧ p.fullName = r
  | _ => False

/-- The step is a poll that finds the repository in the search. -/
def FeedStep.FindsResult (r : String) : FeedStep → Prop
  | .poll (.search spec) up since _ _ =>
    ∃ p ∈ (GitHubSearchConnector.poll X up spec since).yielded, p.fullName = r
  | _ => False

/-- The key of a repository's item from the events. -/
def eventKey (r : String) : ItemKey := (feed.id, gitHubEventsKind, r)

/-- The key of a repository's item from the search. -/
def searchKey (r : String) : ItemKey := (feed.id, gitHubSearchKind, r)

/-- A poll has delivered the creation of the repository. -/
def DeliveredCreation (history : List FeedStep) (r : String) : Prop :=
  ∃ later s older, history = later ++ s :: older ∧ s.FindsCreation X r ∧
    eventKey feed r ∈ (feedAfter X feed items₀ (s :: older)).map FeedItem.key

/-- A poll has delivered the repository as a search result. -/
def DeliveredResult (history : List FeedStep) (r : String) : Prop :=
  ∃ later s older, history = later ++ s :: older ∧ s.FindsResult X r ∧
    searchKey feed r ∈ (feedAfter X feed items₀ (s :: older)).map FeedItem.key

/-- The feed's items of the repository. -/
def itemsOf (items : List FeedItem) (r : String) : List FeedItem :=
  items.filter fun i => decide (i.key = eventKey feed r ∨ i.key = searchKey feed r)

section Keys

variable {X feed items₀} {history older : List FeedStep} {s : FeedStep} {k : ItemKey} {r : String}

/-- **The key of a repository's creation event.** -/
theorem creation_key {spec : GitHubEventsSourceSpec} {up : Upstream} {since : Option Time}
    {p : NewRepoEventPayload} (hp : p ∈ (GitHubEventsConnector.poll X up spec since).yielded) :
    p.key feed = eventKey feed p.fullName := by
  obtain ⟨-, x, -, -, hx⟩ := Generator.mem_ofExcept hp
  obtain ⟨-, -, -, hext, hsource⟩ := GitHubEventsConnector.item_ok hx
  rw [SourcePayload.key, hext, hsource, eventKey]

/-- **The key of a repository that the search finds.** -/
theorem result_key {spec : GitHubSearchSourceSpec} {up : Upstream} {since : Option Time}
    {p : NewRepoPayload} (hp : p ∈ (GitHubSearchConnector.poll X up spec since).yielded) :
    p.key feed = searchKey feed p.fullName := by
  obtain ⟨-, x, -, -, hx⟩ := Generator.mem_ofExcept hp
  obtain ⟨hext, hsource⟩ := GitHubSearchConnector.item_ok hx
  rw [SourcePayload.key, hext, hsource, searchKey]

theorem FeedStep.FindsCreation.delivers (h : s.FindsCreation X r)
    (hk : eventKey feed r ∈ (feedAfter X feed items₀ (s :: older)).map FeedItem.key) :
    s.Delivers X feed items₀ older (eventKey feed r) := by
  refine ⟨?_, hk⟩
  cases s with
  | prune | other => exact h.elim
  | poll src =>
    cases src with
    | search => exact h.elim
    | events =>
      obtain ⟨p, hp, -, rfl⟩ := h
      exact ⟨p.toSourcePayload, List.mem_map_of_mem hp, creation_key hp⟩

theorem FeedStep.FindsResult.delivers (h : s.FindsResult X r)
    (hk : searchKey feed r ∈ (feedAfter X feed items₀ (s :: older)).map FeedItem.key) :
    s.Delivers X feed items₀ older (searchKey feed r) := by
  refine ⟨?_, hk⟩
  cases s with
  | prune | other => exact h.elim
  | poll src =>
    cases src with
    | events => exact h.elim
    | search =>
      obtain ⟨p, hp, rfl⟩ := h
      exact ⟨p.toSourcePayload, List.mem_map_of_mem hp, result_key hp⟩

end Keys

/-! ## One step -/

section Step

variable {X feed items₀} {history older : List FeedStep} {s : FeedStep} {k : ItemKey} {r : String}

/-- A step keeps the keys unique. -/
theorem FeedStep.nodup_run {items : List FeedItem} (h : (items.map FeedItem.key).Nodup) :
    ((s.run X feed items).map FeedItem.key).Nodup := by
  cases s with
  | poll src up since mint fits =>
    obtain ⟨_, -, hi, -⟩ := FeedItemService.recordItems_inserted fits mint feed items
      (src.poll X up since)
    exact hi.nodup h
  | other payloads mint fits =>
    obtain ⟨_, -, hi, -⟩ := FeedItemService.recordItems_inserted fits mint feed items payloads
    exact hi.nodup h
  | prune cutoff => exact h.sublist (List.filter_sublist.map _)

theorem nodup_feedAfter (h : (items₀.map FeedItem.key).Nodup) :
    ((feedAfter X feed items₀ history).map FeedItem.key).Nodup := by
  induction history with
  | nil => exact h
  | cons s older ih => exact FeedStep.nodup_run ih

/-- A recording delivers an item, or it was there. -/
theorem mem_recordItems_iff {fits : SourcePayload → Bool} {mint : SourcePayload → Id}
    {items : List FeedItem} {payloads : Generator SourceError SourcePayload} :
    k ∈ (FeedItemService.recordItems fits mint feed payloads items).1.map FeedItem.key ↔
      ((∃ p ∈ payloads.yielded, p.key feed = k) ∧
        k ∈ (FeedItemService.recordItems fits mint feed payloads items).1.map FeedItem.key) ∨
      k ∈ items.map FeedItem.key := by
  obtain ⟨_, -, hi, -⟩ := FeedItemService.recordItems_inserted fits mint feed items payloads
  constructor
  · exact fun h => (FeedItemService.key_of_mem_recordItems h).symm.imp_left fun hp => ⟨hp, h⟩
  · rintro (⟨-, h⟩ | h)
    · exact h
    · exact List.map_subset _ hi.old h

/-- **What one step makes of an item.** -/
theorem mem_feedAfter_cons (h : (items₀.map FeedItem.key).Nodup) :
    k ∈ (feedAfter X feed items₀ (s :: older)).map FeedItem.key ↔
      s.Delivers X feed items₀ older k ∨
        k ∈ (feedAfter X feed items₀ older).map FeedItem.key ∧
          ¬ s.Removes X feed items₀ older k := by
  have hnot (hs : ∀ cutoff, s ≠ .prune cutoff) : ¬ s.Removes X feed items₀ older k :=
    fun ⟨cutoff, hc, _⟩ => hs cutoff hc
  cases s with
  | poll src up since mint fits =>
    rw [and_iff_left (hnot nofun)]
    exact mem_recordItems_iff
  | other payloads mint fits =>
    rw [and_iff_left (hnot nofun)]
    exact mem_recordItems_iff
  | prune cutoff =>
    have hno : ¬ (FeedStep.prune cutoff).Delivers X feed items₀ older k := by
      rintro ⟨⟨p, hp, -⟩, -⟩
      exact absurd hp List.not_mem_nil
    rw [or_iff_right hno]
    constructor
    · intro hk
      obtain ⟨i, hi, rfl⟩ := List.mem_map.mp hk
      obtain ⟨hi, he⟩ := List.mem_filter.mp hi
      refine ⟨List.mem_map_of_mem hi, ?_⟩
      rintro ⟨_, ⟨⟩, j, hj, hjk, hje⟩
      obtain rfl := Table.eq_of_key (nodup_feedAfter h) hj hi hjk
      exact absurd hje (of_decide_eq_true he)
    · rintro ⟨hk, hr⟩
      obtain ⟨i, hi, rfl⟩ := List.mem_map.mp hk
      refine List.mem_map_of_mem (List.mem_filter.mpr ⟨hi, decide_eq_true fun he => ?_⟩)
      exact hr ⟨cutoff, rfl, i, hi, rfl, he⟩

end Step

/-! ## Histories -/

section History

variable {X feed items₀} {history older : List FeedStep} {s : FeedStep} {k : ItemKey} {r : String}

theorem delivered_cons : DeliveredItem X feed items₀ (s :: older) k ↔
    s.Delivers X feed items₀ older k ∨ DeliveredItem X feed items₀ older k :=
  exists_split_cons

theorem pruned_cons : Pruned X feed items₀ (s :: older) k ↔ s.Removes X feed items₀ older k ∨
    Pruned X feed items₀ older k ∧ ¬ s.Delivers X feed items₀ older k := by
  refine exists_split_cons.trans (or_congr (and_iff_left fun l t o hl => by simp at hl) ?_)
  constructor
  · rintro ⟨later, s', older', rfl, hd, hr⟩
    obtain ⟨hs, hr⟩ := forall_split_cons.mp hr
    exact ⟨⟨later, s', older', rfl, hd, hr⟩, hs⟩
  · rintro ⟨⟨later, s', older', rfl, hd, hr⟩, hs⟩
    exact ⟨later, s', older', rfl, hd, forall_split_cons.mpr ⟨hs, hr⟩⟩

/-- A prune delivers nothing. -/
theorem FeedStep.Removes.not_delivers (h : s.Removes X feed items₀ older k) :
    ¬ s.Delivers X feed items₀ older k := by
  obtain ⟨cutoff, rfl, -⟩ := h
  rintro ⟨⟨p, hp, -⟩, -⟩
  exact absurd hp List.not_mem_nil

/-- **A delivered item is stored unless it has been pruned since.** -/
theorem stored_iff_not_pruned (hn : (items₀.map FeedItem.key).Nodup)
    (hd : DeliveredItem X feed items₀ history k) :
    k ∈ (feedAfter X feed items₀ history).map FeedItem.key ↔ ¬ Pruned X feed items₀ history k := by
  induction history with
  | nil =>
    obtain ⟨later, s, older, h, -⟩ := hd
    simp at h
  | cons s older ih =>
    rw [mem_feedAfter_cons hn, pruned_cons]
    by_cases hs : s.Delivers X feed items₀ older k
    · have hr : ¬ s.Removes X feed items₀ older k := fun hr => hr.not_delivers hs
      simp [hs, hr]
    · rw [ih ((delivered_cons.mp hd).resolve_left hs)]
      tauto

theorem countP_or {α : Type} [DecidableEq α] {a b : α} (hab : a ≠ b) {l : List α} (h : l.Nodup) :
    l.countP (fun x => decide (x = a ∨ x = b)) =
      (if a ∈ l then 1 else 0) + if b ∈ l then 1 else 0 := by
  have hcount : l.countP (fun x => decide (x = a ∨ x = b)) = l.count a + l.count b := by
    clear h
    induction l with
    | nil => rfl
    | cons x l ih =>
      rw [List.countP_cons, List.count_cons, List.count_cons, ih]
      by_cases ha : x = a
      · subst ha
        simp [hab]
        omega
      · simp [ha]
        omega
  rw [hcount, h.count, h.count]

/-- The number of a repository's items. -/
theorem length_itemsOf {items : List FeedItem} (h : (items.map FeedItem.key).Nodup) :
    (itemsOf feed items r).length =
      (if eventKey feed r ∈ items.map FeedItem.key then 1 else 0) +
        if searchKey feed r ∈ items.map FeedItem.key then 1 else 0 := by
  have hne : eventKey feed r ≠ searchKey feed r := by
    intro he
    exact absurd (Prod.mk.inj (Prod.mk.inj he).2).1 (by decide)
  have hcount := countP_or hne h
  rw [List.countP_map] at hcount
  rw [itemsOf, ← List.countP_eq_length_filter]
  refine hcount.trans ?_
  congr

theorem DeliveredCreation.delivered (h : DeliveredCreation X feed items₀ history r) :
    DeliveredItem X feed items₀ history (eventKey feed r) := by
  obtain ⟨later, s, older, hs, hf, hk⟩ := h
  exact ⟨later, s, older, hs, hf.delivers hk⟩

theorem DeliveredResult.delivered (h : DeliveredResult X feed items₀ history r) :
    DeliveredItem X feed items₀ history (searchKey feed r) := by
  obtain ⟨later, s, older, hs, hf, hk⟩ := h
  exact ⟨later, s, older, hs, hf.delivers hk⟩

/-- **Items of a repository that both sources have delivered.** The feed has exactly one when the
prune has removed one of the two, which no poll has delivered since, and not the other. -/
theorem one_item_iff (hn : (items₀.map FeedItem.key).Nodup)
    (hc : DeliveredCreation X feed items₀ history r)
    (hr : DeliveredResult X feed items₀ history r) :
    (itemsOf feed (feedAfter X feed items₀ history) r).length = 1 ↔
      (Pruned X feed items₀ history (eventKey feed r) ↔
        ¬ Pruned X feed items₀ history (searchKey feed r)) := by
  have he := stored_iff_not_pruned hn hc.delivered
  have hs := stored_iff_not_pruned hn hr.delivered
  rw [length_itemsOf (nodup_feedAfter hn)]
  by_cases hpe : Pruned X feed items₀ history (eventKey feed r) <;>
    by_cases hps : Pruned X feed items₀ history (searchKey feed r) <;> simp [he, hs, hpe, hps]

end History

/-! ## One repository, two items -/

/-- A search that finds a repository. -/
def foundBySearch (name : String) : Upstream where
  get _
    | .searchRepositories .. => .response
      { status := 200
        body := .json (.dict [("items", .list [.dict [("full_name", .str name),
          ("pushed_at", .str "1970-01-01T00:02:40Z")]])]) }
    | _ => .response { status := 404, body := .notJson }

/-- The poll of the radar that finds `a/a`. -/
def creationPoll : FeedStep :=
  .poll radar (firehose [createEvent "a/a" "1970-01-01T00:01:40Z"]) (some 0) (fun _ => 1)
    (fun _ => true)

/-- The poll of the search that finds it. -/
def resultPoll : FeedStep :=
  .poll (.search { query := "a" }) (foundBySearch "a/a") (some 0) (fun _ => 2) (fun _ => true)

theorem deliveredCreation_sample :
    DeliveredCreation sampleReader ⟨1, 1⟩ [] [resultPoll, creationPoll] "a/a" :=
  ⟨[resultPoll], creationPoll, [], rfl, ⟨_, List.mem_cons_self, rfl, rfl⟩, by decide⟩

theorem deliveredResult_sample :
    DeliveredResult sampleReader ⟨1, 1⟩ [] [resultPoll, creationPoll] "a/a" :=
  ⟨[], resultPoll, [creationPoll], rfl, ⟨_, List.mem_cons_self, rfl⟩, by decide⟩

/-- **A creation event and a search result make two items**, and neither has been pruned. -/
theorem two_items :
    DeliveredCreation sampleReader ⟨1, 1⟩ [] [resultPoll, creationPoll] "a/a" ∧
    DeliveredResult sampleReader ⟨1, 1⟩ [] [resultPoll, creationPoll] "a/a" ∧
    (itemsOf ⟨1, 1⟩ (feedAfter sampleReader ⟨1, 1⟩ [] [resultPoll, creationPoll]) "a/a").length = 2 :=
  ⟨deliveredCreation_sample, deliveredResult_sample, by decide⟩

/-- The two items, and the prunes. -/
theorem one_item_iff_sample :
    (Pruned sampleReader ⟨1, 1⟩ [] [resultPoll, creationPoll] (eventKey ⟨1, 1⟩ "a/a") ↔
      Pruned sampleReader ⟨1, 1⟩ [] [resultPoll, creationPoll] (searchKey ⟨1, 1⟩ "a/a")) := by
  have hn : (([] : List FeedItem).map FeedItem.key).Nodup := List.nodup_nil
  have h := one_item_iff hn deliveredCreation_sample deliveredResult_sample
  have hnot : ¬ (itemsOf ⟨1, 1⟩ (feedAfter sampleReader ⟨1, 1⟩ [] [resultPoll, creationPoll])
      "a/a").length = 1 := by decide
  have := mt h.mpr hnot
  tauto

end OpenMagpie
