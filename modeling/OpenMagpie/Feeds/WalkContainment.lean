import OpenMagpie.Feeds.Containment

/-!
# Which answers the Algolia walk contains

* `StoryTaken`, `CommentTaken`, `TextUnsound`: what becomes of a hit's fields.
* `PageUnsound`, `HitUnsound`: an answer and a hit that make the walk raise what the poll does not
  catch; `WalkUnsound`: the walk reaches one.
* **`walk_contained`**: a walk is contained exactly when it reaches none; `stories_contained`,
  `comments_contained`: the two connectors.
-/

set_option autoImplicit false

namespace OpenMagpie

open Python

variable (X : Reader)

/-! ## The fields of a hit -/

/-- An HTML text that is no string, or on which the parser raises. -/
def TextUnsound (html : Value) : Prop :=
  html.truthy ∧ ∀ s, html = .str s → X.textNodes s = none

/-- pydantic takes the fields of a story. -/
def StoryTaken (hit : Dict) : Prop :=
  ∃ content title externalUrl author points numComments,
    htmlToText X ((hit.get "story_text").orElse (.str "")) = .ok content ∧
    (hit.get "title").orElse (.str "") = .str title ∧
    (hit.get "url").orElse (.str "") = .str externalUrl ∧
    (hit.get "author").orElse (.str "") = .str author ∧
    X.integerField ((hit.get "points").orElse (.int 0)) = some points ∧
    X.integerField ((hit.get "num_comments").orElse (.int 0)) = some numComments ∧
    X.validStrings [X.str (hit.get "objectID" (.str "")), title, content, externalUrl, author]

/-- The text of a story makes the walk raise what the poll does not catch. -/
def StoryUnsound (hit : Dict) : Prop := TextUnsound X ((hit.get "story_text").orElse (.str ""))

/-- The id of a comment's story, as a string. -/
def commentParent (hit : Dict) : String :=
  match hit.get "story_id" with
  | .none => ""
  | storyId => X.str storyId

/-- pydantic takes the fields of a comment. -/
def CommentTaken (hit : Dict) : Prop :=
  ∃ content storyTitle author,
    htmlToText X ((hit.get "comment_text").orElse (.str "")) = .ok content ∧
    (hit.get "story_title").orElse (.str "") = .str storyTitle ∧
    (hit.get "author").orElse (.str "") = .str author ∧
    X.validStrings [X.str (hit.get "objectID" (.str "")), storyTitle, content,
      commentParent X hit, author]

/-- The text of a comment makes the walk raise what the poll does not catch. -/
def CommentUnsound (hit : Dict) : Prop := TextUnsound X ((hit.get "comment_text").orElse (.str ""))

section Fields

variable {X} {U F T : Prop} {v : Value} {hit : Dict}

/-- A computation whose escapes and whose returns are known. -/
theorem Ends.of_ok {α : Type} {x : Except Raised α} (hU : Escapes x ↔ U)
    (hT : (∃ a, x = .ok a) ↔ T) : Ends U (¬ U ∧ ¬ T) x where
  escapes := hU
  fails := by
    rw [← hU, ← hT]
    cases x with
    | ok a => simp
    | error e => simp

theorem ends_htmlToText : Ends (TextUnsound X v) False (htmlToText X v) := by
  unfold htmlToText TextUnsound
  refine Ends.ite (fun h => ends_ok.congr (by simp [h]) Iff.rfl) fun h => ?_
  have ht : v.truthy := by simpa using h
  cases v with
  | str s =>
    simp only [ht, true_and, Value.str.injEq, forall_eq']
    cases X.textNodes s with
    | none => exact (ends_error (by decide)).congr (by simp) Iff.rfl
    | some chunks => exact ends_ok.congr (by simp) Iff.rfl
  | _ => exact (ends_error (by decide)).congr (by simp [ht]) Iff.rfl

theorem textField_ok {s : String} : textField v = .ok s ↔ v = .str s := by
  cases v <;> simp [textField]

theorem numberField_ok {n : ℤ} : numberField X v = .ok n ↔ X.integerField v = some n := by
  unfold numberField
  cases X.integerField v <;> simp

theorem ends_textField : Ends False (∀ s, v ≠ .str s) (textField v) := by
  cases v with
  | str s => exact ends_ok.congr Iff.rfl (by simp)
  | _ => exact (ends_recoverable (by decide)).congr Iff.rfl (by simp)

theorem ends_numberField : Ends False (X.integerField v = none) (numberField X v) := by
  unfold numberField
  cases X.integerField v with
  | some n => exact ends_ok.congr Iff.rfl (by simp)
  | none => exact (ends_recoverable (by decide)).congr Iff.rfl (by simp)

theorem construct_ok_iff {α : Type} {strings : List String} {a : α} :
    (∃ b, X.construct strings a = .ok b) ↔ X.validStrings strings := by
  unfold Reader.construct
  split <;> simp [*]

/-- The payload of a story. -/
theorem ends_story {spec : HackerNewsFeedSourceSpec} {t : Time} :
    Ends (StoryUnsound X hit) (¬ StoryUnsound X hit ∧ ¬ StoryTaken X hit)
      (HackerNewsFeedPayload.fromAlgoliaHit X spec hit t) := by
  refine Ends.of_ok ?_ ?_
  · have h : Ends _ _ (HackerNewsFeedPayload.fromAlgoliaHit X spec hit t) :=
      ends_htmlToText.bind_left fun _ _ => ends_textField.bind_left fun _ _ =>
        ends_textField.bind_left fun _ _ => ends_textField.bind_left fun _ _ =>
          ends_numberField.bind_left fun _ _ => ends_numberField.bind_left fun _ _ =>
            ends_construct
    exact h.escapes.trans (by simp [StoryUnsound])
  · unfold HackerNewsFeedPayload.fromAlgoliaHit StoryTaken
    simp only [Except.bind_eq_ok, textField_ok, numberField_ok]
    constructor
    · rintro ⟨p, content, hc, title, ht, url, hu, author, ha, points, hp, n, hn, hs⟩
      exact ⟨content, title, url, author, points, n, hc, ht, hu, ha, hp, hn,
        construct_ok_iff.mp ⟨p, hs⟩⟩
    · rintro ⟨content, title, url, author, points, n, hc, ht, hu, ha, hp, hn, hs⟩
      obtain ⟨p, hp'⟩ := construct_ok_iff.mpr hs
      exact ⟨p, content, hc, title, ht, url, hu, author, ha, points, hp, n, hn, hp'⟩

/-- The payload of a comment. -/
theorem ends_comment {t : Time} :
    Ends (CommentUnsound X hit) (¬ CommentUnsound X hit ∧ ¬ CommentTaken X hit)
      (HackerNewsCommentPayload.fromAlgoliaHit X hit t) := by
  refine Ends.of_ok ?_ ?_
  · have h : Ends _ _ (HackerNewsCommentPayload.fromAlgoliaHit X hit t) :=
      ends_htmlToText.bind_left fun _ _ => ends_textField.bind_left fun _ _ =>
        ends_textField.bind_left fun _ _ => ends_construct
    exact h.escapes.trans (by simp [CommentUnsound])
  · unfold HackerNewsCommentPayload.fromAlgoliaHit CommentTaken
    simp only [Except.bind_eq_ok, textField_ok]
    constructor
    · rintro ⟨p, content, hc, title, ht, author, ha, hs⟩
      exact ⟨content, title, author, hc, ht, ha, construct_ok_iff.mp ⟨p, hs⟩⟩
    · rintro ⟨content, title, author, hc, ht, ha, hs⟩
      obtain ⟨p, hp⟩ := construct_ok_iff.mpr hs
      exact ⟨p, content, hc, title, ht, author, ha, hp⟩

end Fields

/-! ## A page -/

namespace AlgoliaSearch

variable (S : AlgoliaSearch) (q : AlgoliaQuery) (up : Upstream) (U F : Dict → Prop)

/-- The `created_at_i` of a hit with a usable timestamp, as an integer. -/
def epoch (x : Value) : Option ℤ :=
  match x.asDict with
  | none => none
  | some hit =>
    match (hit.get "created_at_i").asNumber with
    | none => none
    | some createdAt => (X.fromtimestamp createdAt).map fun _ => createdAt.num.tdiv createdAt.den

/-- A hit that makes the walk raise what the poll does not catch: no dict, or one with a usable
timestamp and an unsound text. -/
def HitUnsound (x : Value) : Prop :=
  match x.asDict with
  | none => True
  | some hit => (epoch X x).isSome ∧ U hit

/-- A hit with a usable timestamp whose fields pydantic refuses. -/
def HitFails (x : Value) : Prop := ∃ hit, x.asDict = some hit ∧ (epoch X x).isSome ∧ F hit

/-- An answer that makes the walk raise what the poll does not catch: a URL that httpx refuses, or a
body that is no text, or is nested too deep. -/
def PageUnsound (f : Fetch) : Prop :=
  f = .invalidUrl ∨ ∃ r, f = .response r ∧ r.Success ∧ r.length ≤ S.maxBodyBytes ∧
    (r.body = .undecodable ∨ r.body = .tooDeep)

/-- The answer is a page with these hits. -/
def PageHits (f : Fetch) (hits : List Value) : Prop :=
  ∃ r d, f = .response r ∧ r.Success ∧ r.length ≤ S.maxBodyBytes ∧ r.body = .json (.dict d) ∧
    Dict.get d "hits" = .list hits

/-- The answer to the request of a page. -/
def answer (page : ℕ) (cursor : Option ℤ) : Fetch :=
  up.get page (.searchByDate (params X S q cursor))

/-- The walk reaches an unsound answer or an unsound hit: on this page, or on an older one, when the
page is full and none of its hits stops the walk. -/
inductive WalkUnsound : ℕ → ℕ → Option ℤ → Prop
  | page {n page : ℕ} {cursor : Option ℤ} (h : PageUnsound S (answer X S q up page cursor)) :
    WalkUnsound (n + 1) page cursor
  | hit {n page : ℕ} {cursor : Option ℤ} {hits : List Value}
    (h : PageHits S (answer X S q up page cursor) hits)
    (hu : ReachesUnsound (HitUnsound X U) (HitFails X F) hits) : WalkUnsound (n + 1) page cursor
  | older {n page : ℕ} {cursor : Option ℤ} {hits : List Value} {oldest : ℤ}
    (h : PageHits S (answer X S q up page cursor) hits)
    (hs : ∀ x ∈ hits, ¬ HitUnsound X U x ∧ ¬ HitFails X F x) (hfull : S.pageSize ≤ hits.length)
    (ho : (hits.filterMap (epoch X)).min? = some oldest)
    (hw : WalkUnsound n (page + 1) (some oldest)) : WalkUnsound (n + 1) page cursor

/-- The walk of a poll reaches something unsound. -/
def Unsound : Prop := WalkUnsound X S q up U F S.maxPages 0 none

variable {X S q up U F} {toPayload : Dict → Time → Except Raised SourcePayload} {x : Value}

theorem ends_buildPayload {U F : Prop} {hit : Dict} {t : Time} (h : Ends U F (toPayload hit t)) :
    Ends U F (buildPayload toPayload hit t) := by
  unfold buildPayload
  split
  · rename_i he
    rw [he] at h
    exact ⟨.trans (by simp [Recoverable]) h.escapes, .trans (by simp [Recoverable]) h.fails⟩
  · exact h

theorem get_ok {f : Fetch} {r : Response} : f.get = .ok r ↔ f = .response r := by
  cases f <;> simp [Fetch.get]

theorem asDict_eq_some {v : Value} {d : Dict} : v.asDict = some d ↔ v = .dict d := by
  cases v <;> simp [Value.asDict]

/-- **One hit.** -/
theorem ends_hit (h : ∀ hit t, Ends (U hit) (F hit) (toPayload hit t)) :
    Ends (HitUnsound X U x) (HitFails X F x) (hit X toPayload x) := by
  unfold HitUnsound HitFails epoch hit
  cases x.asDict with
  | none => exact (ends_error (by decide)).congr Iff.rfl (by simp)
  | some hit =>
    simp only [Option.some.injEq, exists_eq_left']
    cases (hit.get "created_at_i").asNumber with
    | none => exact ends_ok.congr (by simp) (by simp)
    | some createdAt =>
      dsimp only
      cases X.fromtimestamp createdAt with
      | none => exact ends_ok.congr (by simp) (by simp)
      | some t =>
        exact ((ends_buildPayload (h hit t)).bind_const fun _ _ => ends_ok).congr (by simp) (by simp)

/-- What is read of a hit on which the loop goes on. -/
theorem hit_epoch {r : Option (SourcePayload × ℤ)} (h : hit X toPayload x = .ok r) :
    r.map (·.2) = epoch X x := by
  unfold hit at h
  unfold epoch
  generalize x.asDict = d at h ⊢
  cases d with
  | none => cases h
  | some hit =>
    dsimp only at h ⊢
    generalize (hit.get "created_at_i").asNumber = c at h ⊢
    cases c with
    | none =>
      obtain rfl := Except.ok.inj h
      rfl
    | some createdAt =>
      dsimp only at h ⊢
      cases ht : X.fromtimestamp createdAt with
      | none =>
        rw [ht] at h
        obtain rfl := Except.ok.inj h
        rfl
      | some t =>
        rw [ht] at h
        obtain ⟨p, -, h⟩ := Except.bind_eq_ok.mp h
        obtain rfl := Except.pure_eq_ok.mp h
        rfl

/-- The hits of a page. -/
theorem getPage_ok {page : ℕ} {cursor : Option ℤ} {hits : List Value} :
    getPage X S q up page cursor = .ok hits ↔ PageHits S (answer X S q up page cursor) hits := by
  unfold getPage PageHits answer
  constructor
  · intro h
    obtain ⟨r, hr, h⟩ := Except.bind_eq_ok.mp h
    obtain ⟨⟨⟩, hs, h⟩ := Except.bind_eq_ok.mp h
    split_ifs at h with hlen
    split at h
    · cases h
    · obtain ⟨data, hdata, h⟩ := Except.bind_eq_ok.mp h
      split at h
      · rename_i hd
        obtain ⟨d, hdict, hget⟩ := Option.map_eq_some_iff.mp hd
        obtain rfl := Except.pure_eq_ok.mp h
        refine ⟨r, d, get_ok.mp hr, raiseForStatus_ok.mp hs, Nat.not_lt.mp hlen, ?_, hget⟩
        rw [loads_ok.mp hdata, asDict_eq_some.mp hdict]
      · cases h
  · rintro ⟨r, d, hr, hs, hlen, hb, hd⟩
    refine Except.bind_eq_ok.mpr ⟨r, get_ok.mpr hr, ?_⟩
    refine Except.bind_eq_ok.mpr ⟨(), raiseForStatus_ok.mpr hs, ?_⟩
    rw [if_neg (Nat.not_lt.mpr hlen), hb]
    simp [Body.loads, Value.asDict, hd, bind, Except.bind, pure, Except.pure]

/-- What a page makes the walk raise. -/
theorem escapes_getPage {page : ℕ} {cursor : Option ℤ} :
    Escapes (getPage X S q up page cursor) ↔ PageUnsound S (answer X S q up page cursor) := by
  unfold getPage PageUnsound answer
  refine raises_bind.trans ?_
  cases up.get page (.searchByDate (params X S q cursor)) with
  | httpError => simp [Fetch.get, Recoverable]
  | invalidUrl => simp [Fetch.get, Recoverable]
  | response r =>
    simp only [Fetch.get, raises_ok, false_or, Except.ok.injEq, exists_eq_left',
      Fetch.response.injEq, reduceCtorEq]
    rw [raises_bind, ends_raiseForStatus.escapes, false_or]
    constructor
    · rintro ⟨⟨⟩, hs, h⟩
      split_ifs at h with hlen
      · exact absurd h (by simp [Recoverable])
      · refine ⟨raiseForStatus_ok.mp hs, Nat.not_lt.mp hlen, ?_⟩
        cases hb : r.body with
        | undecodable => exact .inl rfl
        | tooDeep => exact .inr rfl
        | notJson => exact absurd h (by simp [hb, Recoverable])
        | json v =>
          simp only [hb, Body.loads, raises_bind, raises_ok, false_or, Except.ok.injEq,
            exists_eq_left'] at h
          split at h
          · exact absurd h raises_pure
          · exact absurd h (by simp [Recoverable])
    · rintro ⟨hs, hlen, hb⟩
      refine ⟨(), raiseForStatus_ok.mpr hs, ?_⟩
      rw [if_neg (Nat.not_lt.mpr hlen)]
      rcases hb with hb | hb
      · simp [hb, Recoverable]
      · simp [hb, Recoverable]

/-- A page and the older ones. -/
theorem escapes_walkFrom_succ (h : ∀ hit t, Ends (U hit) (F hit) (toPayload hit t)) {n page : ℕ}
    {cursor : Option ℤ} {hits : List Value} (hp : getPage X S q up page cursor = .ok hits) :
    Escapes (walkFrom X S q up toPayload (n + 1) page cursor).outcome ↔
      ReachesUnsound (HitUnsound X U) (HitFails X F) hits ∨
      (∀ x ∈ hits, ¬ HitUnsound X U x ∧ ¬ HitFails X F x) ∧ S.pageSize ≤ hits.length ∧
        ∃ oldest, (hits.filterMap (epoch X)).min? = some oldest ∧
          Escapes (walkFrom X S q up toPayload n (page + 1) (some oldest)).outcome := by
  have hloop : Escapes (Generator.ofList (hit X toPayload) hits).outcome ↔ _ :=
    escapes_ofList fun x => ends_hit h
  have hend : (Generator.ofList (hit X toPayload) hits).outcome = .ok () ↔
      ∀ x ∈ hits, ¬ HitUnsound X U x ∧ ¬ HitFails X F x :=
    Generator.outcome_ofList.trans (forall₂_congr fun x _ => (ends_hit h).ok_iff)
  cases hits with
  | nil => simp [walkFrom, hp, ReachesUnsound]
  | cons x hits =>
    conv_lhs => unfold walkFrom
    rw [hp]
    refine Generator.raises_append.trans (or_congr hloop ?_)
    refine (and_congr_left' hend).trans (and_congr_right fun hs => ?_)
    have ho : oldest (Generator.ofList (hit X toPayload) (x :: hits)).yielded =
        ((x :: hits).filterMap (epoch X)).min? := by
      unfold oldest
      rw [Generator.yielded_ofList (g := epoch X)]
      intro x hx
      obtain ⟨r, hr⟩ := (ends_hit h).ok_iff.mpr (hs x hx)
      exact ⟨r, hr, hit_epoch hr⟩
    rw [ho]
    cases ((x :: hits).filterMap (epoch X)).min? with
    | none => simp
    | some oldest =>
      simp only [Option.some.injEq, exists_eq_left']
      split_ifs with hlt
      · exact iff_of_false raises_ok fun hfull => Nat.not_le.mpr hlt hfull.1
      · exact (and_iff_right (Nat.not_lt.mp hlt)).symm

/-- **A walk** is contained exactly when it reaches nothing unsound. -/
theorem escapes_walkFrom (h : ∀ hit t, Ends (U hit) (F hit) (toPayload hit t)) {n page : ℕ}
    {cursor : Option ℤ} : Escapes (walkFrom X S q up toPayload n page cursor).outcome ↔
      WalkUnsound X S q up U F n page cursor := by
  induction n generalizing page cursor with
  | zero => exact iff_of_false (by simp [walkFrom]) nofun
  | succ n ih =>
    cases hp : getPage X S q up page cursor with
    | error e =>
      have hpage : ¬ Recoverable e ↔ PageUnsound S (answer X S q up page cursor) := by
        rw [← escapes_getPage, hp]
        exact (raises_error (P := fun e => ¬ Recoverable e)).symm
      have hwalk : walkFrom X S q up toPayload (n + 1) page cursor = .raise e := by
        simp [walkFrom, hp]
      have hnone : ∀ hits, ¬ PageHits S (answer X S q up page cursor) hits := by
        intro hits hh
        cases hp.symm.trans (getPage_ok.mpr hh)
      rw [hwalk]
      constructor
      · exact fun he => .page (hpage.mp (raises_error.mp he))
      · rintro (hu | ⟨hh, -⟩ | ⟨hh, -⟩)
        · exact raises_error.mpr (hpage.mpr hu)
        · exact absurd hh (hnone _)
        · exact absurd hh (hnone _)
    | ok hits =>
      have hhits := getPage_ok.mp hp
      have hsame {hits'} (hh : PageHits S (answer X S q up page cursor) hits') : hits' = hits :=
        Except.ok.inj ((getPage_ok.mpr hh).symm.trans hp)
      rw [escapes_walkFrom_succ h hp]
      constructor
      · rintro (hu | ⟨hs, hfull, oldest, ho, hw⟩)
        · exact .hit hhits hu
        · exact .older hhits hs hfull ho (ih.mp hw)
      · rintro (hu | ⟨hh, hu⟩ | ⟨hh, hs, hfull, ho, hw⟩)
        · have he := escapes_getPage.mpr hu
          rw [hp] at he
          exact absurd he raises_ok
        · obtain rfl := hsame hh
          exact .inl hu
        · obtain rfl := hsame hh
          exact .inr ⟨hs, hfull, _, ho, ih.mpr hw⟩

end AlgoliaSearch

/-! ## The connectors -/

/-- The walk of a story source reaches something unsound. -/
def StoriesUnsound (up : Upstream) (spec : HackerNewsFeedSourceSpec) (since : Option Time) : Prop :=
  AlgoliaSearch.Unsound X {} (spec.algoliaQuery since) up (StoryUnsound X)
    fun hit => ¬ StoryUnsound X hit ∧ ¬ StoryTaken X hit

/-- The walk of a comment source reaches something unsound. -/
def CommentsUnsound (up : Upstream) (spec : HackerNewsCommentSourceSpec) (since : Option Time) :
    Prop :=
  AlgoliaSearch.Unsound X {} (spec.algoliaQuery since) up (CommentUnsound X)
    fun hit => ¬ CommentUnsound X hit ∧ ¬ CommentTaken X hit

section Connectors

variable {X} {up : Upstream} {since : Option Time}

/-- **A poll of the stories** is contained exactly when its walk reaches nothing unsound. -/
theorem stories_contained {spec : HackerNewsFeedSourceSpec} :
    Contained (HackerNewsFeedConnector.poll X up spec since) ↔
      ¬ StoriesUnsound X up spec since :=
  not_congr (AlgoliaSearch.escapes_walkFrom fun _ _ => ends_story.map)

/-- **A poll of the comments**, likewise. -/
theorem comments_contained {spec : HackerNewsCommentSourceSpec} :
    Contained (HackerNewsCommentConnector.poll X up spec since) ↔
      ¬ CommentsUnsound X up spec since :=
  not_congr (AlgoliaSearch.escapes_walkFrom fun _ _ => ends_comment.map)

end Connectors

end OpenMagpie
