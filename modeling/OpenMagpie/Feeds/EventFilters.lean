import OpenMagpie.Feeds.Containment
import OpenMagpie.Feeds.Ties

/-!
# The filters of an events source

The spec of an events source accepts the kinds of events to surface, whether pushes are wanted, and a
floor of stars. The connector reads one of the three, and takes a push to any branch.

* `WellFormedEvent`: an event as the service sends it.
* `Selects`: the spec selects the event; `wanted`: the payload of an event that is selected and new.
* `Passes`: of an event that the connector enriches, the requests are answered, and no filter applies.
* **`yields_wanted_iff`**: a poll yields the payloads that are wanted exactly when every event passes.
* **`filters_ignored`**: a kind that is not asked for, too few stars, a push to a branch.
-/

set_option autoImplicit false

namespace OpenMagpie

open Python

namespace GitHubEventsConnector

/-! ## What the spec asks for -/

/-- The `ref` of a push. -/
def pushRef (event : Dict) : Value :=
  match (event.get "payload").asDict with
  | some payload => payload.get "ref" (.str "")
  | none => .str ""

/-- The kind of an event: the creation of a repository, or a push. -/
def radarKind (event : Dict) : Option String :=
  match (event.get "payload").asDict with
  | none => none
  | some payload =>
    if isStr (event.get "type" (.str "")) "CreateEvent" then
      if isStr (payload.get "ref_type" (.str "")) "repository" then some "create" else none
    else if isStr (event.get "type" (.str "")) "PushEvent" then some "push" else none

variable (X : Reader) (up : Upstream) (i : ℕ)

/-- The metadata of an event's repository, if the repository is there. -/
def repoOf (event : Dict) : Option Dict :=
  match GitHubEventsClient.fetchRepoMeta up i (X.str (repoName event)) with
  | .ok data => data.asDict
  | .error _ => none

/-- The stars of a repository. -/
def starsOf (repo : Dict) : ℤ :=
  match intField X repo "stargazers_count" with
  | .ok n => n
  | .error _ => 0

/-- The `ref` of a push to the default branch. -/
def defaultRef (repo : Dict) : String := "refs/heads/" ++ X.strOr (repo.get "default_branch")

/-- **The spec selects the event**: its kind is one of the event types, a push is included and goes to
the default branch, and the repository has the stars. -/
def Selects (spec : GitHubEventsSourceSpec) (event : Dict) (kind : String) (repo : Dict) : Prop :=
  kind ∈ spec.eventTypes ∧
    (kind = "push" → spec.includePushes ∧ isStr (pushRef event) (defaultRef X repo)) ∧
    spec.minStars ≤ starsOf X repo

instance (spec : GitHubEventsSourceSpec) (event : Dict) (kind : String) (repo : Dict) :
    Decidable (Selects X spec event kind repo) := by
  unfold Selects; infer_instance

instance (ts : Stamp) (since : Option Time) : Decidable (ts.IsNew since) := by
  unfold Stamp.IsNew; infer_instance

/-- The payload of an event that is new and selected. -/
def wanted (spec : GitHubEventsSourceSpec) (since : Option Time) (event : Value) :
    Option NewRepoEventPayload := do
  let event ← event.asDict
  let ts ← (parseTs X (event.get "created_at" (.str ""))).toOption.join
  let kind ← radarKind event
  let repo ← repoOf X up i event
  if ts.IsNew since ∧ Selects X spec event kind repo then (enrich X up i event ts kind).toOption.join
  else none

/-- **The poll yields the payloads of the selected events, in the order of the window.** -/
def YieldsWanted (spec : GitHubEventsSourceSpec) (since : Option Time) (events : List Value) : Prop :=
  poll X up spec since =
    ⟨events.zipIdx.filterMap fun x => wanted X up x.2 spec since x.1, .ok ()⟩

/-! ## What the connector needs -/

/-- An event as the service sends it: it has a time, a payload and a repository's name, and a push has
a `ref`. -/
structure WellFormedEvent (event : Value) (d : Dict) (t : Time) : Prop where
  dict : event.asDict = some d
  created : parseTs X (d.get "created_at" (.str "")) = .ok (some (.aware t))
  payload : (d.get "payload").asDict.isSome
  named : (repoName d).truthy
  ref : isStr (d.get "type" (.str "")) "PushEvent" → ∃ ref, pushRef d = .str ref

/-- **Of an event that the connector enriches**, the requests are answered, and the spec selects it
when its repository is there. -/
def Passes (spec : GitHubEventsSourceSpec) (since : Option Time) (event : Value) : Prop :=
  ∀ d t kind, WellFormedEvent X event d t → (∀ w ∈ since, w < t) → eventKind spec d = .ok (some kind) →
    (∃ r, enrich X up i d (.aware t) kind = .ok r) ∧
      ∀ repo, repoOf X up i d = some repo → Selects X spec d kind repo

section Filters

variable {X up i} {spec : GitHubEventsSourceSpec} {since : Option Time} {event : Value} {d repo : Dict}
  {t : Time} {ts : Stamp} {kind : String} {r : Option NewRepoEventPayload}

/-- The payload of an event is there when its repository is. -/
theorem enrich_isSome (h : enrich X up i d ts kind = .ok r) : r.isSome = (repoOf X up i d).isSome := by
  obtain ⟨data, hdata, h⟩ := Except.bind_eq_ok.mp h
  rw [repoOf, hdata]
  cases data with
  | none =>
    obtain rfl := Except.pure_eq_ok.mp h
    rfl
  | _ =>
    obtain ⟨readme, -, h⟩ := Except.bind_eq_ok.mp h
    obtain ⟨payload, hp, h⟩ := Except.bind_eq_ok.mp h
    obtain rfl := Except.pure_eq_ok.mp h
    first
    | rfl
    | cases hp

/-- The event is a push to a branch. -/
def PushesBranch (d : Dict) : Prop :=
  ∃ ref, pushRef d = .str ref ∧ "refs/heads/".toList.isPrefixOf ref.toList

variable (spec) in
/-- The kind of payload that a well-formed event calls for. -/
theorem eventKind_ok (h : WellFormedEvent X event d t) : ∃ called, eventKind spec d = .ok called ∧
    ∀ kind, called = some kind ↔
      radarKind d = some kind ∧ (kind = "push" → spec.includePushes ∧ PushesBranch d) := by
  obtain ⟨payload, hpayload⟩ := Option.isSome_iff_exists.mp h.payload
  have href := h.ref
  have hname : ¬ (repoName d).truthy = false := by simp [h.named]
  unfold PushesBranch
  simp only [pushRef, hpayload] at href ⊢
  rw [eventKind, radarKind, hpayload]
  dsimp only
  rw [if_neg hname]
  by_cases hcreate : isStr (d.get "type" (.str "")) "CreateEvent"
  · rw [if_pos hcreate, if_pos hcreate]
    by_cases hrepo : isStr (payload.get "ref_type" (.str "")) "repository"
    · rw [if_pos hrepo, if_pos hrepo]
      refine ⟨_, rfl, fun kind => ⟨fun hk => ?_, fun hk => hk.1⟩⟩
      obtain rfl := Option.some.inj hk
      exact ⟨rfl, fun hp => absurd hp (by decide)⟩
    · rw [if_neg hrepo, if_neg hrepo]
      exact ⟨_, rfl, fun kind => by simp⟩
  · rw [if_neg hcreate, if_neg hcreate]
    by_cases hpush : isStr (d.get "type" (.str "")) "PushEvent"
    · obtain ⟨ref, href⟩ := href hpush
      rw [if_pos hpush, href]
      by_cases hincl : spec.includePushes
      · rw [if_pos ⟨hpush, hincl⟩]
        dsimp only
        by_cases hbranch : "refs/heads/".toList.isPrefixOf ref.toList
        · rw [if_pos hbranch]
          exact ⟨_, rfl, fun kind => ⟨fun hk => ⟨hk, fun _ => ⟨hincl, ref, rfl, hbranch⟩⟩, fun hk => hk.1⟩⟩
        · rw [if_neg hbranch]
          refine ⟨_, rfl, fun kind => iff_of_false nofun fun hk => hbranch ?_⟩
          obtain ⟨-, ref', href', hbranch'⟩ := hk.2 (Option.some.inj hk.1).symm
          exact (Value.str.inj href') ▸ hbranch'
      · rw [if_neg fun hb => hincl hb.2]
        exact ⟨_, rfl, fun kind => iff_of_false nofun fun hk =>
          hincl (hk.2 (Option.some.inj hk.1).symm).1⟩
    · rw [if_neg hpush, if_neg fun hb => hpush hb.1]
      exact ⟨_, rfl, fun kind => by simp⟩

/-- A push that the spec selects goes to a branch. -/
theorem pushesBranch_of_selects (h : Selects X spec d "push" repo) : PushesBranch d := by
  refine ⟨defaultRef X repo, isStr_iff.mp (h.2.1 rfl).2, ?_⟩
  rw [defaultRef, String.toList_append, List.isPrefixOf_iff_prefix]
  exact List.prefix_append _ _

theorem item_of_old (h : WellFormedEvent X event d t) (ht : ¬ ∀ w ∈ since, w < t) :
    item X up i spec since event = .ok none := by
  obtain ⟨w, hw, hle⟩ := not_forall₂.mp ht
  obtain rfl := hw
  rw [item, h.dict]
  dsimp only
  rw [h.created]
  exact if_pos (decide_eq_true (not_lt.mp hle))

theorem item_of_new (h : WellFormedEvent X event d t) (ht : ∀ w ∈ since, w < t) :
    item X up i spec since event = candidate X up i spec d (.aware t) := by
  rw [item, h.dict]
  dsimp only
  rw [h.created]
  cases since with
  | none => rfl
  | some w => exact if_neg (by simpa using ht w rfl)

theorem candidate_of_called (h : eventKind spec d = .ok (some kind)) :
    candidate X up i spec d ts = enrich X up i d ts kind := by
  rw [candidate, h]
  rfl

/-- **What is wanted of an event.** -/
theorem wanted_eq_some (h : WellFormedEvent X event d t) {p : NewRepoEventPayload} :
    wanted X up i spec since event = some p ↔ ∃ kind repo, radarKind d = some kind ∧
      repoOf X up i d = some repo ∧ ((∀ w ∈ since, w < t) ∧ Selects X spec d kind repo) ∧
        enrich X up i d (.aware t) kind = .ok (some p) := by
  have hp : ∀ x : Except Raised (Option NewRepoEventPayload),
      x.toOption.join = some p ↔ x = .ok (some p) := by
    intro x
    cases x <;> simp [Except.toOption]
  have hts : (parseTs X (d.get "created_at" (.str ""))).toOption.join = some (.aware t) := by
    rw [h.created]
    rfl
  unfold wanted
  rw [h.dict]
  simp only [Option.bind_eq_bind, Option.bind_some, hts, Option.bind_eq_some_iff,
    Option.ite_none_right_eq_some, hp]
  constructor
  · rintro ⟨kind, hkind, repo, hrepo, hsel, henrich⟩
    exact ⟨kind, repo, hkind, hrepo, hsel, henrich⟩
  · rintro ⟨kind, repo, hkind, hrepo, hsel, henrich⟩
    exact ⟨kind, hkind, repo, hrepo, hsel, henrich⟩

/-- What is wanted, the connector yields. -/
theorem item_of_wanted (h : WellFormedEvent X event d t) {p : NewRepoEventPayload}
    (hp : wanted X up i spec since event = some p) :
    item X up i spec since event = .ok (some p) := by
  obtain ⟨kind, repo, hkind, -, ⟨hnew, hsel⟩, henrich⟩ := (wanted_eq_some h).mp hp
  obtain ⟨called, hcalled, hiff⟩ := eventKind_ok spec h
  obtain rfl : called = some kind := (hiff kind).mpr ⟨hkind, fun hpush => by
    subst hpush
    exact ⟨(hsel.2.1 rfl).1, pushesBranch_of_selects hsel⟩⟩
  rw [item_of_new h hnew, candidate_of_called hcalled, henrich]

/-- **One event** is treated as the spec asks exactly when it passes. -/
theorem item_eq_wanted (h : WellFormedEvent X event d t) :
    item X up i spec since event = .ok (wanted X up i spec since event) ↔
      Passes X up i spec since event := by
  have hnone : item X up i spec since event = .ok none →
      item X up i spec since event = .ok (wanted X up i spec since event) := by
    intro hitem
    cases hw : wanted X up i spec since event with
    | none => exact hitem
    | some p => exact item_of_wanted h hw
  obtain ⟨called, hcalled, hiff⟩ := eventKind_ok spec h
  constructor
  · intro hitem d' t' kind h' hnew hkind
    obtain rfl : d = d' := Option.some.inj (h.dict.symm.trans h'.dict)
    obtain rfl : t = t' := by
      simpa using Except.ok.inj (h.created.symm.trans h'.created)
    rw [item_of_new h hnew, candidate_of_called hkind] at hitem
    refine ⟨⟨_, hitem⟩, fun repo hrepo => ?_⟩
    have hsome := enrich_isSome hitem
    rw [hrepo] at hsome
    obtain ⟨p, hp⟩ := Option.isSome_iff_exists.mp hsome
    obtain ⟨kind', repo', hkind', hrepo', ⟨-, hsel⟩, -⟩ := (wanted_eq_some h).mp hp
    obtain rfl := Option.some.inj (hrepo.symm.trans hrepo')
    have hradar := ((hiff kind).mp (Except.ok.inj (hcalled.symm.trans hkind))).1
    obtain rfl := Option.some.inj (hradar.symm.trans hkind')
    exact hsel
  · intro hpasses
    by_cases hnew : ∀ w ∈ since, w < t
    · cases called with
      | none =>
        refine hnone ?_
        rw [item_of_new h hnew, candidate, hcalled]
        rfl
      | some kind =>
        obtain ⟨⟨r, henrich⟩, hsel⟩ := hpasses d t kind h hnew hcalled
        have hitem : item X up i spec since event = .ok r := by
          rw [item_of_new h hnew, candidate_of_called hcalled, henrich]
        cases r with
        | none => exact hnone hitem
        | some p =>
          obtain ⟨repo, hrepo⟩ := Option.isSome_iff_exists.mp (enrich_isSome henrich).symm
          have hwanted : wanted X up i spec since event = some p := (wanted_eq_some h).mpr
            ⟨kind, repo, ((hiff kind).mp rfl).1, hrepo, ⟨hnew, hsel repo hrepo⟩, henrich⟩
          rw [hitem, hwanted]
    · exact hnone (item_of_old h hnew)

variable (X up spec since) in
/-- **A poll yields the payloads that are wanted exactly when every event passes.** -/
theorem yields_wanted_iff {events : List Value} (hwindow : window up = .ok events)
    (hwell : ∀ event ∈ events, ∃ d t, WellFormedEvent X event d t) :
    YieldsWanted X up spec since events ↔
      ∀ x ∈ events.zipIdx, Passes X up x.2 spec since x.1 := by
  have hpoll : poll X up spec since = Generator.ofList
      (fun x : Value × ℕ => item X up x.2 spec since x.1) events.zipIdx := by
    rw [poll, hwindow]
    rfl
  have hwell' : ∀ x ∈ events.zipIdx, ∃ d t, WellFormedEvent X x.1 d t :=
    fun x hx => hwell x.1 (List.fst_mem_of_mem_zipIdx hx)
  rw [YieldsWanted, hpoll, Generator.ofList_eq_iff]
  · refine forall₂_congr fun x hx => ?_
    obtain ⟨d, t, h⟩ := hwell' x hx
    exact item_eq_wanted h
  · intro x hx r p hr hp
    obtain ⟨d, t, h⟩ := hwell' x hx
    exact Except.ok.inj (hr.symm.trans (item_of_wanted h hp))

end Filters

/-! ## A filter that is ignored -/

/-- A push to a branch of a repository. -/
def pushEvent (name branch createdAt : String) : Value :=
  .dict [("type", .str "PushEvent"), ("created_at", .str createdAt),
    ("repo", .dict [("name", .str name)]), ("payload", .dict [("ref", .str ("refs/heads/" ++ branch))])]

/-- A firehose with some events; repositories have some stars, and the default branch `main`. -/
def starred (stars : ℤ) (events : List Value) : Upstream where
  get _
    | .events => .response { status := 200, body := .json (.list events) }
    | .repo name => .response
      { status := 200
        body := .json (.dict [("full_name", .str name), ("stargazers_count", .int stars),
          ("default_branch", .str "main")]) }
    | _ => .response { status := 404, body := .notJson }

/-- A creation. -/
def creations : List Value := [createEvent "a/a" "1970-01-01T00:01:40Z"]

/-- A push to a branch. -/
def pushes (branch : String) : List Value := [pushEvent "a/a" branch "1970-01-01T00:01:40Z"]

theorem wellFormed_creations :
    ∀ event ∈ creations, ∃ d t, WellFormedEvent sampleReader event d t := by
  intro event hevent
  obtain rfl := List.mem_singleton.mp hevent
  exact ⟨_, 100, rfl, rfl, rfl, rfl, nofun⟩

theorem wellFormed_pushes (branch : String) :
    ∀ event ∈ pushes branch, ∃ d t, WellFormedEvent sampleReader event d t := by
  intro event hevent
  obtain rfl := List.mem_singleton.mp hevent
  exact ⟨_, 100, rfl, rfl, rfl, rfl, fun _ => ⟨_, rfl⟩⟩

/-- The creations and pushes of repositories with five stars. -/
def popularSpec : GitHubEventsSourceSpec where
  eventTypes := ["create", "push"]
  includePushes := true
  minStars := 5

/-- A creation and a push to `main`, of repositories with seven stars: the poll yields both, so both
pass. -/
theorem yields_wanted_sample :
    (poll sampleReader (starred 7 (creations ++ pushes "main")) popularSpec (some 0)).yielded.length =
        2 ∧
      ∀ x ∈ (creations ++ pushes "main").zipIdx,
        Passes sampleReader (starred 7 (creations ++ pushes "main")) x.2 popularSpec (some 0) x.1 := by
  have hwell : ∀ event ∈ creations ++ pushes "main", ∃ d t, WellFormedEvent sampleReader event d t :=
    fun event hevent => (List.mem_append.mp hevent).elim (wellFormed_creations event)
      (wellFormed_pushes "main" event)
  have h : YieldsWanted sampleReader (starred 7 (creations ++ pushes "main")) popularSpec (some 0)
      (creations ++ pushes "main") := rfl
  exact ⟨by decide, (yields_wanted_iff sampleReader (starred 7 (creations ++ pushes "main")) popularSpec
    (some 0) rfl hwell).mp h⟩

/-- **The filters are ignored**: the event types, the floor of stars, and the default branch. -/
theorem filters_ignored :
    ¬ YieldsWanted sampleReader (starred 0 creations)
      { eventTypes := ["push"], includePushes := true } (some 0) creations ∧
    ¬ YieldsWanted sampleReader (starred 0 creations) { minStars := 1 } (some 0) creations ∧
    ¬ YieldsWanted sampleReader (starred 0 (pushes "topic"))
      { eventTypes := ["create", "push"], includePushes := true } (some 0) (pushes "topic") := by
  refine ⟨fun h => ?_, fun h => ?_, fun h => ?_⟩ <;>
    exact absurd (congrArg (fun s => s.yielded.length) h) (by decide)

end GitHubEventsConnector

end OpenMagpie
