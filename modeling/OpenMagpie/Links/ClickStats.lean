import Mathlib.Algebra.BigOperators.Group.List.Lemmas
import Mathlib.Data.List.Dedup
import Mathlib.Data.List.Sort
import Mathlib.Tactic.SplitIfs
import OpenMagpie.Lib.Assoc
import OpenMagpie.Lib.Batched
import OpenMagpie.Links.ShortLinks
import OpenMagpie.Watches.Runs

/-!
# The statistics of a link

The events of many links are rolled up in chunks of ids, by two grouped queries a chunk; the rows of
the second come by descending count, and those of one count in any order.

* `ShortLinkService.statsFor`, `ShortLinkService.stats`: the rollup of many links, and of one.
* `shownCount`: the count that a country shows. Events without a country are shown as `??`; an event
  whose country is `??` is shown so too, and of the two counts the later row stays.
* **`statsFor_counts`**: for every link the rollup has its events, its visitors and the shown counts,
  whatever the other links are; the counts add up to the events, unless the link has both.
-/

set_option autoImplicit false

namespace OpenMagpie.Links

/-! ## The rollup -/

/-- `ShortLinkStats`. -/
structure ShortLinkStats where
  total : ℕ
  unique : ℕ
  byCountry : List (String × ℕ) := []

/-- A row of the second query. -/
structure CountryRow where
  link : Id
  country : String
  n : ℕ
  deriving DecidableEq

/-- The events of a link. -/
def clicksOf (link : Id) (events : List ClickEvent) : List ClickEvent :=
  events.filter fun e => decide (e.shortLinkId = link)

/-- The visitors of some events; a click without an address has none. -/
def visitors (events : List ClickEvent) : List String :=
  ((events.map (·.ipHash)).filter fun hash => decide (hash ≠ "")).dedup

/-- The key of the second query's groups. -/
def countryKey (e : ClickEvent) : Id × String := (e.shortLinkId, e.country)

/-- The first query: events and visitors by link. -/
def totalRows (events : List ClickEvent) : List (Id × ℕ × ℕ) :=
  (events.map (·.shortLinkId)).dedup.map fun link =>
    (link, (clicksOf link events).length, (visitors (clicksOf link events)).length)

/-- The second query: events by link and country. -/
def countryRows (events : List ClickEvent) : List CountryRow :=
  (events.map countryKey).dedup.map fun k => ⟨k.1, k.2, (events.map countryKey).count k⟩

/-- `row["country"] or UNKNOWN_COUNTRY`. -/
def shownCountry (country : String) : String := if country = "" then unknownCountry else country

/-- `countries.setdefault(link, {})[country] = n`. -/
def addCountry (d : List (Id × List (String × ℕ))) (r : CountryRow) : List (Id × List (String × ℕ)) :=
  Assoc.set r.link (Assoc.set (shownCountry r.country) r.n ((Assoc.get d r.link).getD [])) d

/-- The two dictionaries of `stats_for`. -/
structure Rollup where
  totals : List (Id × ℕ × ℕ) := []
  countries : List (Id × List (String × ℕ)) := []

namespace ShortLinkService

variable (order : List CountryRow → List CountryRow) (events : List ClickEvent)

/-- One chunk of ids. -/
def statsChunk (acc : Rollup) (chunk : List Id) : Rollup :=
  let rows := events.filter fun e => decide (e.shortLinkId ∈ chunk)
  { totals := (totalRows rows).foldl (fun d r => Assoc.set r.1 r.2 d) acc.totals
    countries := (order (countryRows rows)).foldl addCountry acc.countries }

/-- The loop of `stats_for` over the chunks. -/
def rollup (ids : List Id) : Rollup :=
  (Batched.batched idInChunk ids).foldl (statsChunk order events) {}

/-- `stats_for`. -/
def statsFor (ids : List Id) : List (Id × ShortLinkStats) :=
  let acc := rollup order events ids
  ids.foldl (fun d sid =>
    let total := (Assoc.get acc.totals sid).getD (0, 0)
    Assoc.set sid ⟨total.1, total.2, (Assoc.get acc.countries sid).getD []⟩ d) []

/-- `stats`. -/
def stats (link : Id) : Option ShortLinkStats := Assoc.get (statsFor order events [link]) link

end ShortLinkService

/-! ## What a link shows -/

/-- The countries of a link's events. -/
def countriesOf (link : Id) (events : List ClickEvent) : List String :=
  (clicksOf link events).map (·.country)

/-- The rows of a link. -/
def linkRows (link : Id) (events : List ClickEvent) : List CountryRow :=
  (countriesOf link events).dedup.map fun c => ⟨link, c, (countriesOf link events).count c⟩

/-- The count that a link shows under a country: of two countries shown alike, the smaller count. -/
def shownCount (link : Id) (events : List ClickEvent) (shown : String) : Option ℕ :=
  (((linkRows link events).filter fun r => decide (shownCountry r.country = shown)).map (·.n)).min?

/-- Rows by descending count, as the query orders them. -/
structure ByCount (order : List CountryRow → List CountryRow) : Prop where
  perm : ∀ rows, (order rows).Perm rows
  sorted : ∀ rows, (order rows).Pairwise fun r r' => r'.n ≤ r.n

section Rows

variable {link : Id} {events : List ClickEvent} {chunk : List Id}

theorem clicksOf_chunk (h : link ∈ chunk) :
    clicksOf link (events.filter fun e => decide (e.shortLinkId ∈ chunk)) = clicksOf link events := by
  rw [clicksOf, List.filter_filter]
  refine List.filter_congr fun e _ => ?_
  by_cases he : e.shortLinkId = link
  · simp [he, h]
  · simp [he]

theorem mem_countriesOf {c : String} :
    c ∈ countriesOf link events ↔ (link, c) ∈ events.map countryKey := by
  simp only [countriesOf, clicksOf, countryKey, List.mem_map, List.mem_filter, decide_eq_true_eq,
    Prod.mk.injEq]
  constructor
  · rintro ⟨e, ⟨he, hl⟩, hc⟩
    exact ⟨e, he, hl, hc⟩
  · rintro ⟨e, he, hl, hc⟩
    exact ⟨e, ⟨he, hl⟩, hc⟩

theorem count_countriesOf (c : String) :
    (countriesOf link events).count c = (events.map countryKey).count (link, c) := by
  rw [countriesOf, clicksOf, List.count, List.count, List.countP_map, List.countP_map,
    List.countP_filter]
  refine List.countP_congr fun e _ => ?_
  simp [countryKey, and_comm]

/-- A chunk's rows of a link that it has are the link's rows. -/
theorem filter_countryRows (h : link ∈ chunk) :
    ((countryRows (events.filter fun e => decide (e.shortLinkId ∈ chunk))).filter fun r =>
      decide (r.link = link)).Perm (linkRows link events) := by
  have hclicks : countriesOf link (events.filter fun e => decide (e.shortLinkId ∈ chunk)) =
      countriesOf link events := congrArg (List.map _) (clicksOf_chunk h)
  generalize events.filter (fun e => decide (e.shortLinkId ∈ chunk)) = rows at hclicks ⊢
  rw [linkRows, ← hclicks]
  refine (List.perm_ext_iff_of_nodup ?_ ?_).mpr fun r => ?_
  · refine (List.Nodup.map ?_ (List.nodup_dedup _)).filter _
    intro k k' he
    exact Prod.ext (congrArg CountryRow.link he) (congrArg CountryRow.country he)
  · exact List.Nodup.map (fun c c' he => congrArg CountryRow.country he) (List.nodup_dedup _)
  · simp only [countryRows, List.mem_filter, List.mem_map, List.mem_dedup, decide_eq_true_eq]
    constructor
    · rintro ⟨⟨k, hk, rfl⟩, hl⟩
      refine ⟨k.2, mem_countriesOf.mpr ?_, ?_⟩
      · rw [← hl]
        simpa using hk
      · rw [count_countriesOf, ← hl]
    · rintro ⟨c, hc, rfl⟩
      refine ⟨⟨(link, c), by simpa using mem_countriesOf.mp hc, ?_⟩, rfl⟩
      rw [count_countriesOf]

/-- A chunk has no rows of a link that it does not have. -/
theorem filter_countryRows_of_not (h : link ∉ chunk) :
    (countryRows (events.filter fun e => decide (e.shortLinkId ∈ chunk))).filter (fun r =>
      decide (r.link = link)) = [] := by
  refine List.filter_eq_nil_iff.mpr fun r hr hl => ?_
  obtain ⟨k, hk, rfl⟩ := List.mem_map.mp hr
  obtain ⟨e, he, rfl⟩ := List.mem_map.mp (List.mem_dedup.mp hk)
  have hmem : e.shortLinkId ∈ chunk := of_decide_eq_true (List.mem_filter.mp he).2
  exact h (of_decide_eq_true hl ▸ hmem)

end Rows

/-! ## A link's dictionary -/

section Countries

variable {order : List CountryRow → List CountryRow} {events : List ClickEvent} {link : Id}

/-- The assignment of a row to its link's dictionary. -/
def addShown (d : List (String × ℕ)) (r : CountryRow) : List (String × ℕ) :=
  Assoc.set (shownCountry r.country) r.n d

/-- A link's dictionary after a loop over rows of many links. -/
theorem get_foldl_addCountry (rows : List CountryRow) (d : List (Id × List (String × ℕ))) :
    (Assoc.get (rows.foldl addCountry d) link).getD [] =
      (rows.filter fun r => decide (r.link = link)).foldl addShown ((Assoc.get d link).getD []) := by
  induction rows generalizing d with
  | nil => rfl
  | cons r rows ih =>
    rw [List.foldl_cons, ih]
    by_cases hr : r.link = link
    · subst hr
      rw [List.filter_cons_of_pos (by simp), List.foldl_cons, addCountry, Assoc.get_set_self]
      rfl
    · rw [List.filter_cons_of_neg (by simpa using hr), addCountry, Assoc.get_set_of_ne hr]

/-- The rows of a chunk that are a link's. -/
def chunkRows (order : List CountryRow → List CountryRow) (events : List ClickEvent) (link : Id)
    (chunk : List Id) : List CountryRow :=
  (order (countryRows (events.filter fun e => decide (e.shortLinkId ∈ chunk)))).filter fun r =>
    decide (r.link = link)

theorem get_countries (chunks : List (List Id)) (acc : Rollup) :
    (Assoc.get (chunks.foldl (ShortLinkService.statsChunk order events) acc).countries link).getD [] =
      (chunks.flatMap (chunkRows order events link)).foldl addShown
        ((Assoc.get acc.countries link).getD []) := by
  induction chunks generalizing acc with
  | nil => rfl
  | cons chunk chunks ih =>
    rw [List.foldl_cons, ih, List.flatMap_cons, List.foldl_append]
    exact congrArg (List.foldl addShown · _) (get_foldl_addCountry _ _)

theorem chunkRows_perm (ho : ByCount order) {chunk : List Id} (h : link ∈ chunk) :
    (chunkRows order events link chunk).Perm (linkRows link events) :=
  ((ho.perm _).filter _).trans (filter_countryRows h)

theorem chunkRows_of_not (ho : ByCount order) {chunk : List Id} (h : link ∉ chunk) :
    chunkRows order events link chunk = [] := by
  refine List.filter_eq_nil_iff.mpr fun r hr => ?_
  exact List.filter_eq_nil_iff.mp (filter_countryRows_of_not h) r ((ho.perm _).subset hr)

/-- The last of descending counts is the smallest. -/
theorem getLast?_eq_min? {l : List ℕ} (h : l.Pairwise fun n m => m ≤ n) : l.getLast? = l.min? := by
  cases hl : l.getLast? with
  | none =>
    rw [List.getLast?_eq_none_iff] at hl
    rw [hl]
    rfl
  | some n =>
    symm
    rw [List.min?_eq_some_iff]
    obtain ⟨init, rfl⟩ := List.getLast?_eq_some_iff.mp hl
    refine ⟨by simp, fun m hm => ?_⟩
    rcases List.mem_append.mp hm with hm | hm
    · exact (List.pairwise_append.mp h).2.2 m hm n List.mem_cons_self
    · rw [List.mem_singleton.mp hm]

theorem min?_perm {l l' : List ℕ} (h : l.Perm l') : l.min? = l'.min? := by
  cases hl : l'.min? with
  | none =>
    rw [List.min?_eq_none_iff] at hl ⊢
    subst hl
    exact h.eq_nil
  | some n =>
    rw [List.min?_eq_some_iff] at hl ⊢
    exact ⟨h.symm.subset hl.1, fun m hm => hl.2 m (h.subset hm)⟩

/-- **After a link's rows, a country has the count that it shows.** -/
theorem get_foldl_chunkRows (ho : ByCount order) {chunk : List Id} (h : link ∈ chunk)
    (d : List (String × ℕ)) (shown : String) :
    Assoc.get ((chunkRows order events link chunk).foldl addShown d) shown =
      (shownCount link events shown).or (Assoc.get d shown) := by
  have hrows := Assoc.get_foldl_set (fun r : CountryRow => shownCountry r.country) (·.n)
    (chunkRows order events link chunk) d shown
  have hsorted : ((chunkRows order events link chunk).filter fun r =>
      decide (shownCountry r.country = shown)).Pairwise fun r r' => r'.n ≤ r.n :=
    ((ho.sorted _).filter _).filter _
  have hlast := getLast?_eq_min? (List.pairwise_map.mpr hsorted)
  rw [List.getLast?_map] at hlast
  rw [hlast, min?_perm (((chunkRows_perm ho h).filter _).map _)] at hrows
  exact hrows

theorem get_foldl_chunks (ho : ByCount order) (chunks : List (List Id)) (d : List (String × ℕ))
    (shown : String) (hd : Assoc.get d shown = none ∨ Assoc.get d shown = shownCount link events shown) :
    Assoc.get ((chunks.flatMap (chunkRows order events link)).foldl addShown d) shown =
      if ∃ chunk ∈ chunks, link ∈ chunk then shownCount link events shown else Assoc.get d shown := by
  induction chunks generalizing d with
  | nil => simp
  | cons chunk chunks ih =>
    rw [List.flatMap_cons, List.foldl_append]
    by_cases h : link ∈ chunk
    · have hget : Assoc.get ((chunkRows order events link chunk).foldl addShown d) shown =
          shownCount link events shown := by
        rw [get_foldl_chunkRows ho h]
        rcases hd with hd | hd <;> rw [hd] <;> cases shownCount link events shown <;> rfl
      rw [ih _ (.inr hget), hget, ite_self, if_pos ⟨chunk, List.mem_cons_self, h⟩]
    · rw [chunkRows_of_not ho h, List.foldl_nil, ih d hd]
      simp [h]

/-! ## The shown counts together -/

theorem sum_linkRows : ((linkRows link events).map (·.n)).sum = (clicksOf link events).length := by
  have h := List.sum_map_count_dedup_eq_length (countriesOf link events)
  rw [linkRows, List.map_map]
  exact h.trans (List.length_map _)

theorem linkRows_pos : ∀ r ∈ linkRows link events, 0 < r.n := by
  intro r hr
  obtain ⟨c, hc, rfl⟩ := List.mem_map.mp hr
  exact List.count_pos_iff.mpr (List.mem_dedup.mp hc)

/-- A link shows two countries alike exactly when it has both the blank one and `??`. -/
theorem nodup_shown_iff : ((linkRows link events).map fun r => shownCountry r.country).Nodup ↔
    ¬ ("" ∈ countriesOf link events ∧ unknownCountry ∈ countriesOf link events) := by
  have hmap : ((linkRows link events).map fun r => shownCountry r.country) =
      (countriesOf link events).dedup.map shownCountry := by
    rw [linkRows, List.map_map]
    rfl
  have hne : unknownCountry ≠ "" := by decide
  rw [hmap, List.nodup_map_iff_inj_on (List.nodup_dedup _)]
  simp only [List.mem_dedup]
  constructor
  · rintro h ⟨hblank, hunknown⟩
    exact hne (h _ hunknown _ hblank (by simp [shownCountry]))
  · intro h c hc c' hc' he
    unfold shownCountry at he
    split_ifs at he with h₁ h₂ h₂
    · rw [h₁, h₂]
    · exact absurd ⟨h₁ ▸ hc, he ▸ hc'⟩ h
    · exact absurd ⟨h₂ ▸ hc', he ▸ hc⟩ h
    · exact he

end Countries

/-! ## The totals -/

section Totals

variable {order : List CountryRow → List CountryRow} {events : List ClickEvent} {link : Id}

/-- A link's events and visitors, none for a link without events. -/
def linkTotal (link : Id) (events : List ClickEvent) : Option (ℕ × ℕ) :=
  if clicksOf link events = [] then none
  else some ((clicksOf link events).length, (visitors (clicksOf link events)).length)

theorem get_foldl_totalRows (rows : List ClickEvent) (d : List (Id × ℕ × ℕ)) :
    Assoc.get ((totalRows rows).foldl (fun d r => Assoc.set r.1 r.2 d) d) link =
      (linkTotal link rows).or (Assoc.get d link) := by
  rw [totalRows, List.foldl_map, Assoc.get_foldl_set_keys]
  have hmem : link ∈ (rows.map (·.shortLinkId)).dedup ↔ clicksOf link rows ≠ [] := by
    simp [clicksOf]
  unfold linkTotal
  by_cases h : clicksOf link rows = []
  · rw [if_pos h, if_neg fun hm => hmem.mp hm h]
    rfl
  · rw [if_neg h, if_pos (hmem.mpr h)]
    rfl

theorem get_totals (chunks : List (List Id)) (acc : Rollup)
    (hacc : Assoc.get acc.totals link = none ∨ Assoc.get acc.totals link = linkTotal link events) :
    Assoc.get (chunks.foldl (ShortLinkService.statsChunk order events) acc).totals link =
      if ∃ chunk ∈ chunks, link ∈ chunk then linkTotal link events else Assoc.get acc.totals link := by
  induction chunks generalizing acc with
  | nil => simp
  | cons chunk chunks ih =>
    rw [List.foldl_cons]
    have hget := @get_foldl_totalRows link
      (events.filter fun e => decide (e.shortLinkId ∈ chunk)) acc.totals
    by_cases h : link ∈ chunk
    · have htotal : Assoc.get (ShortLinkService.statsChunk order events acc chunk).totals link =
          linkTotal link events := by
        refine hget.trans ?_
        rw [linkTotal, clicksOf_chunk h, ← linkTotal]
        rcases hacc with hacc | hacc <;> rw [hacc] <;> cases linkTotal link events <;> rfl
      rw [ih _ (.inr htotal), htotal, ite_self, if_pos ⟨chunk, List.mem_cons_self, h⟩]
    · have hnone : clicksOf link (events.filter fun e => decide (e.shortLinkId ∈ chunk)) = [] := by
        refine List.filter_eq_nil_iff.mpr fun e he hl => h ?_
        exact of_decide_eq_true hl ▸ of_decide_eq_true (List.mem_filter.mp he).2
      have htotal : Assoc.get (ShortLinkService.statsChunk order events acc chunk).totals link =
          Assoc.get acc.totals link := by
        refine hget.trans ?_
        rw [linkTotal, if_pos hnone]
        rfl
      rw [ih _ (htotal ▸ hacc), htotal]
      simp [h]

end Totals

/-! ## Every rollup -/

section Rollups

variable {order : List CountryRow → List CountryRow} {events : List ClickEvent} {link : Id} {ids : List Id}

theorem mem_batched_ids : (∃ chunk ∈ Batched.batched idInChunk ids, link ∈ chunk) ↔ link ∈ ids :=
  Batched.mem_flatten_batched (by decide)

theorem rollup_total (h : link ∈ ids) :
    (Assoc.get (ShortLinkService.rollup order events ids).totals link).getD (0, 0) =
      ((clicksOf link events).length, (visitors (clicksOf link events)).length) := by
  have hget := @get_totals order events link
    (Batched.batched idInChunk ids) {} (.inl rfl)
  rw [if_pos (mem_batched_ids.mpr h)] at hget
  rw [ShortLinkService.rollup, hget, linkTotal]
  split_ifs with hnone
  · rw [hnone]
    rfl
  · rfl

theorem rollup_countries : (Assoc.get (ShortLinkService.rollup order events ids).countries link).getD [] =
    ((Batched.batched idInChunk ids).flatMap (chunkRows order events link)).foldl addShown [] :=
  get_countries (Batched.batched idInChunk ids) {}

theorem get_rollup_countries (ho : ByCount order) (h : link ∈ ids) (shown : String) :
    Assoc.get ((Assoc.get (ShortLinkService.rollup order events ids).countries link).getD []) shown =
      shownCount link events shown := by
  rw [rollup_countries, get_foldl_chunks ho _ _ _ (.inl rfl), if_pos (mem_batched_ids.mpr h)]

/-- The dictionary has the entries of a loop over one chunk's rows. -/
theorem sum_rollup_countries (ho : ByCount order) (h : link ∈ ids) {chunk : List Id}
    (hmem : link ∈ chunk) :
    (((Assoc.get (ShortLinkService.rollup order events ids).countries link).getD []).map Prod.snd).sum =
      (((chunkRows order events link chunk).foldl addShown []).map Prod.snd).sum := by
  refine ((Assoc.perm_of_get_eq ?_ ?_ fun shown => ?_).map _).sum_eq
  · rw [rollup_countries]
    exact Assoc.nodup_keys_foldl_set _ _ List.nodup_nil
  · exact Assoc.nodup_keys_foldl_set _ _ List.nodup_nil
  · rw [get_rollup_countries ho h, get_foldl_chunkRows ho hmem]
    cases shownCount link events shown <;> rfl

theorem sum_countries_iff (ho : ByCount order) (h : link ∈ ids) :
    (((Assoc.get (ShortLinkService.rollup order events ids).countries link).getD []).map Prod.snd).sum =
      (clicksOf link events).length ↔
    ¬ ("" ∈ countriesOf link events ∧ unknownCountry ∈ countriesOf link events) := by
  obtain ⟨chunk, -, hmem⟩ := mem_batched_ids.mpr h
  have hperm : (chunkRows order events link chunk).Perm (linkRows link events) := chunkRows_perm ho hmem
  have hloop := Assoc.sum_foldl_set_eq_iff (fun r : CountryRow => shownCountry r.country) CountryRow.n
    (d := []) (fun r hr => linkRows_pos r (hperm.subset hr)) (by simp) (by simp)
  rw [(hperm.map _).nodup_iff, nodup_shown_iff, (hperm.map _).sum_eq, sum_linkRows] at hloop
  simp only [List.map_nil, List.sum_nil, Nat.zero_add, List.not_mem_nil, not_false_eq_true,
    implies_true, and_true] at hloop
  rw [sum_rollup_countries ho h hmem]
  exact hloop

/-- **The rollup of a link counts its events**, whatever other links are rolled up with it: all of
them, their visitors, and by country the counts shown. The counts by country add up to all events
exactly when the link does not have both events without a country and events of the country `??`. -/
theorem statsFor_counts (ho : ByCount order) (h : link ∈ ids) :
    ∃ s, Assoc.get (ShortLinkService.statsFor order events ids) link = some s ∧
      s.total = (clicksOf link events).length ∧
      s.unique = (visitors (clicksOf link events)).length ∧
      (∀ shown, Assoc.get s.byCountry shown = shownCount link events shown) ∧
      ((s.byCountry.map Prod.snd).sum = s.total ↔
        ¬ ("" ∈ countriesOf link events ∧ unknownCountry ∈ countriesOf link events)) := by
  have htotal := @rollup_total order events link ids h
  refine ⟨_, (Assoc.get_foldl_set_keys _ ids [] link).trans (if_pos h), ?_⟩
  rw [htotal]
  exact ⟨rfl, rfl, get_rollup_countries ho h, sum_countries_iff ho h⟩

end Rollups

/-- Descending counts, rows of one count as they come. -/
def byCount (rows : List CountryRow) : List CountryRow := rows.insertionSort fun r r' => r'.n ≤ r.n

theorem byCount_ok : ByCount byCount where
  perm rows := List.perm_insertionSort _ rows
  sorted rows := List.pairwise_insertionSort (fun r r' : CountryRow => r'.n ≤ r.n) rows

/-- Three clicks of two visitors: one without a country, two of the country `??`. -/
def sampleClicks : List ClickEvent :=
  [{ id := 1, shortLinkId := 1, ipHash := "a" },
    { id := 2, shortLinkId := 1, ipHash := "a", country := "??" },
    { id := 3, shortLinkId := 1, ipHash := "b", country := "??" }]

/-- The two clicks of `??` are not shown. -/
theorem statsFor_counts_sample : ∃ s,
    Assoc.get (ShortLinkService.statsFor byCount sampleClicks [1, 2]) 1 = some s ∧ s.total = 3 ∧
      Assoc.get s.byCountry "??" = some 1 ∧ (s.byCountry.map Prod.snd).sum ≠ s.total := by
  obtain ⟨s, hs, htotal, -, hshown, hsum⟩ :=
    @statsFor_counts byCount sampleClicks 1 [1, 2] byCount_ok (by decide)
  exact ⟨s, hs, htotal, (hshown _).trans rfl, fun h => hsum.mp h (by decide)⟩

end OpenMagpie.Links
