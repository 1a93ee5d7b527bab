import OpenMagpie.Feeds.RedditBatch
import Mathlib.Data.List.Chain

/-!
# Packing subreddits into combined requests

The names of a chunk are joined by `+` in the path of its request, and a chunk is closed before the
source that would not fit. The running length counts a separator for every name but the first of the
first chunk: the first name of a later chunk keeps the separator it had as the last name of the chunk
before, where it did not fit.

* `combinedSlug`: the joined names of a chunk.
* `LaterChunk`: where the chunks after the first begin.
* `Packed`: a packing of the sources that leaves no room.
* **`packed_iff`**: the chunks leave no room exactly when no run of sources from where a later chunk
  begins fills the budget to the last character.
-/

set_option autoImplicit false

namespace OpenMagpie

/-! ## The combined request -/

section Slug

variable {a b : List RedditPair} {pair : RedditPair}

/-- `slug` of `_walk_new`. -/
def combinedSlug (chunk : List RedditPair) : String :=
  String.intercalate "+" (chunk.map (·.2.subreddit))

theorem combinedSlug_singleton : (combinedSlug [pair]).length = pair.2.subreddit.length := by
  simp [combinedSlug]

/-- A separator stands between two parts. -/
theorem combinedSlug_append (ha : a ≠ []) (hb : b ≠ []) :
    (combinedSlug (a ++ b)).length = (combinedSlug a).length + 1 + (combinedSlug b).length := by
  have hplus : "+".length = 1 := rfl
  rw [combinedSlug, List.map_append, String.intercalate_append_of_ne_nil (by simpa using ha)
    (by simpa using hb), String.length_append, String.length_append, hplus]
  rfl

/-- The names of a chunk, each of `n` characters. -/
theorem length_combinedSlug {n : ℕ} (ha : a ≠ [])
    (h : ∀ pair ∈ a, pair.2.subreddit.length = n) :
    (combinedSlug a).length + 1 = a.length * (n + 1) := by
  induction a with
  | nil => exact absurd rfl ha
  | cons pair a ih =>
    obtain ⟨hpair, hrest⟩ := List.forall_mem_cons.mp h
    by_cases hnil : a = []
    · rw [hnil, combinedSlug_singleton, hpair, List.length_singleton, Nat.one_mul]
    · rw [← List.singleton_append, combinedSlug_append (List.cons_ne_nil _ _) hnil,
        combinedSlug_singleton, hpair, List.singleton_append, List.length_cons, Nat.succ_mul,
        ← ih hnil hrest]
      omega

end Slug

/-! ## The chunks -/

section Packing

variable {budget extra used : ℕ} {pairs cur seg rest : List RedditPair} {pair next : RedditPair}

/-- The loop's body, on a chunk under way. -/
theorem iterUrlBudgetChunks_cons (hcur : cur ≠ []) :
    iterUrlBudgetChunks budget (next :: rest) cur used =
      if budget < used + (next.2.subreddit.length + 1) then
        cur :: iterUrlBudgetChunks budget rest [next] (next.2.subreddit.length + 1)
      else iterUrlBudgetChunks budget rest (cur ++ [next]) (used + (next.2.subreddit.length + 1)) := by
  obtain ⟨pair, seg, rfl⟩ := List.exists_cons_of_ne_nil hcur
  simp [iterUrlBudgetChunks]

/-- Sources that fit join the current chunk. `extra` is what the running length counts too much. -/
theorem iterUrlBudgetChunks_append (hcur : cur ≠ [])
    (h : seg ≠ [] → (combinedSlug (cur ++ seg)).length + extra ≤ budget) :
    iterUrlBudgetChunks budget (seg ++ rest) cur ((combinedSlug cur).length + extra) =
      iterUrlBudgetChunks budget rest (cur ++ seg) ((combinedSlug (cur ++ seg)).length + extra) := by
  induction seg generalizing cur with
  | nil => simp
  | cons pair seg ih =>
    have hlen := h (List.cons_ne_nil _ _)
    have hone := combinedSlug_append hcur (List.cons_ne_nil pair [])
    rw [combinedSlug_singleton] at hone
    rw [List.append_cons] at hlen ⊢
    have hle : (combinedSlug (cur ++ [pair])).length + extra ≤ budget := by
      by_cases hseg : seg = []
      · rwa [hseg, List.append_nil] at hlen
      · rw [combinedSlug_append (by simp) hseg] at hlen
        omega
    rw [List.cons_append, iterUrlBudgetChunks_cons hcur, if_neg (by omega), ← ih (by simp) fun _ => hlen]
    congr 1
    omega

/-- The chunk is closed before the source that does not fit, which keeps its separator. -/
theorem iterUrlBudgetChunks_close (hcur : cur ≠ [])
    (h : budget < (combinedSlug (cur ++ [next])).length + extra) :
    iterUrlBudgetChunks budget (next :: rest) cur ((combinedSlug cur).length + extra) =
      cur :: iterUrlBudgetChunks budget rest [next] ((combinedSlug [next]).length + 1) := by
  rw [combinedSlug_append hcur (List.cons_ne_nil _ _), combinedSlug_singleton] at h
  rw [iterUrlBudgetChunks_cons hcur, combinedSlug_singleton, if_pos (by omega)]

theorem iterUrlBudgetChunks_first :
    iterUrlBudgetChunks budget (pair :: rest) [] 0 =
      iterUrlBudgetChunks budget rest [pair] ((combinedSlug [pair]).length + 0) := by
  rw [iterUrlBudgetChunks, combinedSlug_singleton]
  simp

/-- The current chunk comes first, and keeps its sources. -/
theorem iterUrlBudgetChunks_head :
    ∃ seg chunks, iterUrlBudgetChunks budget rest (pair :: cur) used = (pair :: seg) :: chunks := by
  induction rest generalizing cur used with
  | nil => exact ⟨cur, [], rfl⟩
  | cons next rest ih =>
    rw [iterUrlBudgetChunks_cons (List.cons_ne_nil _ _)]
    by_cases hover : budget < used + (next.2.subreddit.length + 1)
    · rw [if_pos hover]
      exact ⟨cur, _, rfl⟩
    · rw [if_neg hover]
      exact ih

/-- **Where a chunk after the first begins**: the first chunk ends before the source that takes its
names over the budget, a later one before the source that takes them up to it. -/
inductive LaterChunk (budget : ℕ) (pairs : List RedditPair) : List RedditPair → Prop
  | second {cur rest : List RedditPair} {next : RedditPair} : pairs = cur ++ next :: rest → cur ≠ [] →
      (1 < cur.length → (combinedSlug cur).length ≤ budget) →
      budget < (combinedSlug (cur ++ [next])).length → LaterChunk budget pairs (next :: rest)
  | succ {cur rest : List RedditPair} {next : RedditPair} :
      LaterChunk budget pairs (cur ++ next :: rest) → cur ≠ [] →
      (1 < cur.length → (combinedSlug cur).length < budget) →
      budget ≤ (combinedSlug (cur ++ [next])).length → LaterChunk budget pairs (next :: rest)

/-- **A packing of the sources into chunks.** The chunks hold the sources in order and none is empty,
the names of more than one fit the budget, and no chunk has room for the first source of the next. -/
structure Packed (budget : ℕ) (pairs : List RedditPair) (chunks : List (List RedditPair)) : Prop where
  nonempty : ∀ chunk ∈ chunks, chunk ≠ []
  flatten : chunks.flatten = pairs
  fits : ∀ chunk ∈ chunks, 1 < chunk.length → (combinedSlug chunk).length ≤ budget
  full : chunks.IsChain fun chunk next =>
    ∀ pair ∈ next.head?, budget < (combinedSlug (chunk ++ [pair])).length

/-- A chunk that begins late has its name counted with a separator. -/
theorem LaterChunk.chunks_eq (h : LaterChunk budget pairs (next :: rest)) :
    ∃ before, before ≠ [] ∧ iterUrlBudgetChunks budget pairs [] 0 =
      before ++ iterUrlBudgetChunks budget rest [next] ((combinedSlug [next]).length + 1) := by
  generalize hl : next :: rest = l at h
  induction h generalizing next rest with
  | @second cur rest' next' hpairs hcur hfits hover =>
    obtain ⟨rfl, rfl⟩ := List.cons.inj hl
    obtain ⟨pair, seg, rfl⟩ := List.exists_cons_of_ne_nil hcur
    refine ⟨[pair :: seg], List.cons_ne_nil _ _, ?_⟩
    rw [hpairs, List.cons_append, iterUrlBudgetChunks_first,
      iterUrlBudgetChunks_append (List.cons_ne_nil _ _), List.singleton_append,
      iterUrlBudgetChunks_close hcur hover, List.singleton_append]
    exact fun hseg => hfits (by simpa using List.length_pos_iff.mpr hseg)
  | @succ cur rest' next' hlater hcur hfits hover ih =>
    obtain ⟨rfl, rfl⟩ := List.cons.inj hl
    obtain ⟨pair, seg, rfl⟩ := List.exists_cons_of_ne_nil hcur
    obtain ⟨before, hne, heq⟩ := ih (List.cons_append.symm)
    refine ⟨before ++ [pair :: seg], by simp, ?_⟩
    rw [heq, iterUrlBudgetChunks_append (List.cons_ne_nil _ _), List.singleton_append,
      iterUrlBudgetChunks_close hcur (by omega), List.append_assoc, List.singleton_append]
    exact fun hseg => hfits (by simpa using List.length_pos_iff.mpr hseg)

/-- The names of a chunk of several sources fit, whatever the running length counts too much. -/
theorem length_le_of_mem_iterUrlBudgetChunks {chunk : List RedditPair} (hcur : cur ≠ [])
    (h : 1 < cur.length → (combinedSlug cur).length + extra ≤ budget) (hlong : 1 < chunk.length)
    (hmem : chunk ∈ iterUrlBudgetChunks budget rest cur ((combinedSlug cur).length + extra)) :
    (combinedSlug chunk).length ≤ budget := by
  induction rest generalizing cur extra with
  | nil =>
    rw [iterUrlBudgetChunks, if_neg (by simpa using hcur)] at hmem
    obtain rfl := List.mem_singleton.mp hmem
    have := h hlong
    omega
  | cons next rest ih =>
    have hone := combinedSlug_append hcur (List.cons_ne_nil next [])
    by_cases hover : budget < (combinedSlug (cur ++ [next])).length + extra
    · rw [iterUrlBudgetChunks_close hcur hover] at hmem
      rcases List.mem_cons.mp hmem with rfl | hmem
      · have := h hlong
        omega
      · exact ih (List.cons_ne_nil _ _) (fun hl => absurd hl (by simp)) hmem
    · rw [← List.singleton_append, iterUrlBudgetChunks_append hcur fun _ => by omega] at hmem
      exact ih (by simp) (fun _ => by omega) hmem

/-- The first chunk, and each later one when no run of sources fills the budget, leaves no room. -/
theorem isChain_iterUrlBudgetChunks (hcur : cur ≠ [])
    (hstart : extra = 0 ∧ pairs = cur ++ rest ∨ extra = 1 ∧ LaterChunk budget pairs (cur ++ rest))
    (hfits : 1 < cur.length → (combinedSlug cur).length + extra ≤ budget)
    (h : ∀ run rest, LaterChunk budget pairs (run ++ rest) → 1 < run.length →
      (combinedSlug run).length ≠ budget) :
    (iterUrlBudgetChunks budget rest cur ((combinedSlug cur).length + extra)).IsChain
      fun chunk next => ∀ pair ∈ next.head?, budget < (combinedSlug (chunk ++ [pair])).length := by
  induction rest generalizing cur extra with
  | nil =>
    rw [iterUrlBudgetChunks, if_neg (by simpa using hcur)]
    exact .singleton _
  | cons next rest ih =>
    by_cases hover : budget < (combinedSlug (cur ++ [next])).length + extra
    · rw [iterUrlBudgetChunks_close hcur hover]
      have hnext : budget < (combinedSlug (cur ++ [next])).length ∧
          LaterChunk budget pairs (next :: rest) := by
        rcases hstart with ⟨rfl, hpairs⟩ | ⟨rfl, hlater⟩
        · exact ⟨hover, .second hpairs hcur hfits hover⟩
        · have hne := h (cur ++ [next]) rest (by rwa [← List.append_cons]) (by
            simpa using List.length_pos_iff.mpr hcur)
          exact ⟨by omega, hlater.succ hcur (fun hl => by have := hfits hl; omega) (by omega)⟩
      have hrest := ih (List.cons_ne_nil next []) (.inr ⟨rfl, hnext.2⟩)
        fun hl => absurd hl (by simp)
      obtain ⟨seg, chunks, heq⟩ : ∃ seg chunks, iterUrlBudgetChunks budget rest [next]
          ((combinedSlug [next]).length + 1) = (next :: seg) :: chunks :=
        iterUrlBudgetChunks_head
      rw [heq] at hrest ⊢
      exact .cons_cons (fun pair hpair => by cases hpair; exact hnext.1) hrest
    · rw [← List.singleton_append, iterUrlBudgetChunks_append hcur fun _ => by omega]
      exact ih (by simp) (by rwa [← List.append_cons]) fun _ => by omega

/-- A run of sources from where a later chunk begins leaves room when it fills the budget. -/
theorem Packed.length_ne {run : List RedditPair}
    (hpacked : Packed budget pairs (iterUrlBudgetChunks budget pairs [] 0))
    (hlater : LaterChunk budget pairs (run ++ rest)) (hlong : 1 < run.length) :
    (combinedSlug run).length ≠ budget := by
  intro hfull
  obtain ⟨pair, seg, rfl⟩ := List.exists_cons_of_ne_nil
    (List.ne_nil_of_length_pos (Nat.lt_of_succ_lt hlong))
  -- the last source of the run would have filled the chunk of the others
  have hseg : seg ≠ [] := fun h => by simp [h] at hlong
  obtain ⟨seg, last, rfl⟩ := List.eq_nil_or_concat' seg |>.resolve_left hseg
  have hlen := combinedSlug_append (List.cons_ne_nil pair seg) (List.cons_ne_nil last [])
  rw [List.cons_append] at hlen
  rw [List.cons_append] at hlater
  obtain ⟨before, -, heq⟩ := hlater.chunks_eq
  rw [List.append_assoc, List.singleton_append, iterUrlBudgetChunks_append (List.cons_ne_nil _ _),
    List.singleton_append, iterUrlBudgetChunks_close (List.cons_ne_nil _ _)] at heq
  · have hchain := hpacked.full
    obtain ⟨seg', chunks, hhead⟩ : ∃ seg' chunks, iterUrlBudgetChunks budget rest [last]
        ((combinedSlug [last]).length + 1) = (last :: seg') :: chunks :=
      iterUrlBudgetChunks_head
    rw [heq, hhead] at hchain
    have hroom := (List.isChain_cons_cons.mp hchain.right_of_append).1 last rfl
    rw [List.cons_append, hfull] at hroom
    exact Nat.lt_irrefl _ hroom
  · rw [List.cons_append]
    omega
  · intro _
    rw [List.singleton_append]
    omega

/-- **The chunks leave no room exactly when no run of sources from where a later chunk begins fills
the budget to the last character.** -/
theorem packed_iff (budget : ℕ) (pairs : List RedditPair) :
    Packed budget pairs (iterUrlBudgetChunks budget pairs [] 0) ↔
      ∀ run rest, LaterChunk budget pairs (run ++ rest) → 1 < run.length →
        (combinedSlug run).length ≠ budget := by
  constructor
  · exact fun hpacked _ _ hlater hlong => hpacked.length_ne hlater hlong
  · intro h
    cases pairs with
    | nil => exact ⟨fun _ h => absurd h List.not_mem_nil, rfl,
        fun _ h => absurd h List.not_mem_nil, .nil⟩
    | cons pair rest =>
      refine ⟨fun _ => ne_nil_of_mem_iterUrlBudgetChunks, flatten_iterUrlBudgetChunks, ?_, ?_⟩
      · intro chunk hmem hlong
        rw [iterUrlBudgetChunks_first] at hmem
        exact length_le_of_mem_iterUrlBudgetChunks (List.cons_ne_nil _ _)
          (fun hl => absurd hl (by simp)) hlong hmem
      · rw [iterUrlBudgetChunks_first]
        exact isChain_iterUrlBudgetChunks (List.cons_ne_nil _ _) (.inl ⟨rfl, rfl⟩)
          (fun hl => absurd hl (by simp)) h

/-! ## A source that would have fitted -/

/-- A letter. -/
def letter (i : ℕ) : Char := Char.ofNat (97 + i % 26)

theorem isSlugChar_letter (i : ℕ) : isSlugChar (letter i) = true := by
  have hall : ∀ k < 26, isSlugChar (Char.ofNat (97 + k)) = true := by decide
  exact hall _ (Nat.mod_lt i (by decide))

/-- A source with a name of 21 characters. -/
def longSource (i : ℕ) : RedditPair :=
  (⟨i, 1, 1, [], 0⟩,
    ⟨String.ofList (List.replicate 18 'a' ++ [letter (i / 676), letter (i / 26), letter i]), by
      simp [isSlug, isSlugChar_letter, show isSlugChar 'a' = true from rfl]⟩)

/-- A source with a name of 11 characters. -/
def shortSource : RedditPair := (⟨674, 1, 1, [], 0⟩, ⟨"short_names", by decide⟩)

/-- 337 sources with names of 21 characters, from the one with id `i` on. -/
def longSources (i : ℕ) : List RedditPair := (List.range' i 337).map longSource

theorem length_longSource (i : ℕ) : (longSource i).2.subreddit.length = 21 := by
  rw [longSource, String.length_ofList]
  rfl

theorem length_longSources (i : ℕ) : (combinedSlug (longSources i)).length = 7413 := by
  have h := length_combinedSlug (a := longSources i) (n := 21) (by simp [longSources]) (by
    intro pair hpair
    obtain ⟨k, -, rfl⟩ := List.mem_map.mp hpair
    exact length_longSource k)
  rw [longSources, List.length_map, List.length_range'] at h
  exact Nat.succ.inj h

/-- The last of 675 sources would have filled the second chunk, and is left to a third. -/
theorem packed_counterexample :
    ¬ Packed urlBudget (longSources 0 ++ (longSources 337 ++ [shortSource]))
      (iterUrlBudgetChunks urlBudget (longSources 0 ++ (longSources 337 ++ [shortSource])) [] 0) := by
  intro hpacked
  have hcons : longSources 337 = longSource 337 :: (List.range' 338 336).map longSource := rfl
  have hlater : LaterChunk urlBudget (longSources 0 ++ (longSources 337 ++ [shortSource]))
      (longSources 337 ++ [shortSource] ++ []) := by
    rw [List.append_nil]
    rw [hcons, List.cons_append]
    refine .second rfl (by simp [longSources]) (fun _ => ?_) ?_
    · rw [length_longSources]
      decide
    · rw [combinedSlug_append (by simp [longSources]) (List.cons_ne_nil _ _), length_longSources,
        combinedSlug_singleton, length_longSource]
      decide
  refine hpacked.length_ne hlater (by simp [longSources]) ?_
  rw [combinedSlug_append (by simp [longSources]) (List.cons_ne_nil _ _), length_longSources,
    combinedSlug_singleton]
  decide

end Packing

end OpenMagpie
