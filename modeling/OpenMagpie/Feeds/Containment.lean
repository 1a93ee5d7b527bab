import Mathlib.Tactic.MkIffOfInductiveProp
import Mathlib.Tactic.Tauto
import OpenMagpie.Feeds.GitHub
import OpenMagpie.Feeds.HackerNews

/-!
# Which answers a connector contains

A poll catches the exceptions of `_RECOVERABLE_ERRORS`. For each connector, the answers of the
upstream on which another exception escapes.

* `Ends`: when a computation escapes, and when it fails with a recoverable error; `Ends.bind`.
* `EventUnsound`, `RepoUnsound`, `HitUnsound`: an event, a repository and a hit that make the
  connector raise something else.
* **`events_contained`**, **`search_contained`**, **`walk_contained`**: a poll is contained exactly
  when no unsound element is reached.
-/

set_option autoImplicit false

namespace OpenMagpie

open Python

/-- The generator ends normally or with a recoverable error. -/
def Contained {α : Type} (g : Generator SourceError α) : Prop := ¬ Escapes g.outcome

/-! ## How a computation ends -/

section Ends

variable {α β : Type} {U U' F F' : Prop} {x : Except Raised α} {f : α → Except Raised β}

/-- The computation escapes exactly when `U` holds, and fails exactly when `F` does. -/
structure Ends (U F : Prop) (x : Except Raised α) : Prop where
  escapes : Raises (fun e => ¬ Recoverable e) x ↔ U
  fails : Raises Recoverable x ↔ F

theorem Ends.ok_iff (h : Ends U F x) : (∃ a, x = .ok a) ↔ ¬ U ∧ ¬ F := by
  rw [exists_eq_ok Recoverable, h.escapes, h.fails, and_comm]

theorem Ends.congr (h : Ends U F x) (hU : U ↔ U') (hF : F ↔ F') : Ends U' F' x :=
  ⟨h.escapes.trans hU, h.fails.trans hF⟩

theorem ends_ok {a : α} : Ends False False (.ok a : Except Raised α) := ⟨by simp, by simp⟩

theorem ends_error {e : Raised} (h : ¬ Recoverable e) :
    Ends True False (.error e : Except Raised α) := ⟨by simp [h], by simp [h]⟩

theorem ends_recoverable {e : Raised} (h : Recoverable e) :
    Ends False True (.error e : Except Raised α) := ⟨by simp [h], by simp [h]⟩

/-- **A sequence**, whose second part depends on what the first returns. -/
theorem Ends.bind {V G : α → Prop} (h : Ends U F x)
    (hf : ∀ a, x = .ok a → Ends (V a) (G a) (f a)) :
    Ends (U ∨ ∃ a, x = .ok a ∧ V a) (F ∨ ∃ a, x = .ok a ∧ G a) (x >>= f) where
  escapes := raises_bind.trans <| or_congr h.escapes <|
    exists_congr fun a => and_congr_right fun ha => (hf a ha).escapes
  fails := raises_bind.trans <| or_congr h.fails <|
    exists_congr fun a => and_congr_right fun ha => (hf a ha).fails

/-- A sequence whose second part ends alike whatever the first returns. -/
theorem Ends.bind_const {V G : Prop} (h : Ends U F x) (hf : ∀ a, x = .ok a → Ends V G (f a)) :
    Ends (U ∨ ¬ F ∧ V) (F ∨ ¬ U ∧ G) (x >>= f) := by
  refine (h.bind hf).congr ?_ ?_
  · rw [exists_and_right, h.ok_iff]
    tauto
  · rw [exists_and_right, h.ok_iff]
    tauto

/-- A sequence whose second part escapes alike whatever the first returns. -/
theorem Ends.bind_left {V : Prop} {G : α → Prop} (h : Ends U F x)
    (hf : ∀ a, x = .ok a → Ends V (G a) (f a)) :
    Ends (U ∨ ¬ F ∧ V) (F ∨ ∃ a, x = .ok a ∧ G a) (x >>= f) := by
  refine (h.bind hf).congr ?_ Iff.rfl
  rw [exists_and_right, h.ok_iff]
  tauto

/-- A sequence whose second part has nothing to do when the first finds nothing. -/
theorem Ends.bind_some {x : Except Raised (Option α)} {f : Option α → Except Raised (Option β)}
    {V G : α → Prop} (h : Ends U False x) (hnone : f none = .ok none)
    (hf : ∀ a, Ends (V a) (G a) (f (some a))) :
    Ends (U ∨ ∃ a, x = .ok (some a) ∧ V a) (∃ a, x = .ok (some a) ∧ G a) (x >>= f) := by
  have hsome (Q : α → Prop) : (∃ o, x = .ok o ∧ ∃ a, o = some a ∧ Q a) ↔
      ∃ a, x = .ok (some a) ∧ Q a := by
    constructor
    · rintro ⟨_, hx, a, rfl, hQ⟩
      exact ⟨a, hx, hQ⟩
    · exact fun ⟨a, hx, hQ⟩ => ⟨some a, hx, a, rfl, hQ⟩
  rw [← hsome, ← hsome]
  refine (h.bind fun o _ => ?_).congr Iff.rfl (iff_of_eq (false_or _))
  cases o with
  | none => exact hnone ▸ ends_ok.congr (by simp) (by simp)
  | some a => exact (hf a).congr (by simp) (by simp)

theorem Ends.ite {c : Prop} [Decidable c] {y : Except Raised α} (hx : c → Ends U F x)
    (hy : ¬ c → Ends U F y) : Ends U F (if c then x else y) := by
  split_ifs with h
  · exact hx h
  · exact hy h

theorem Ends.map {g : α → β} (h : Ends U F x) : Ends U F (x.map g) :=
  ⟨raises_map.trans h.escapes, raises_map.trans h.fails⟩

end Ends

variable (X : Reader) (up : Upstream) (i : ℕ)

/-! ## A repository -/

/-- The field is an integer, or falsy. -/
def IntSound (d : Dict) (k : String) : Prop := ((d.get k).orElse (.int 0)).Integral X.parseInt

/-- The repository's topics are a collection, and its numbers are numbers. -/
@[mk_iff]
structure RepoSound (repo : Dict) : Prop where
  topics : ((repo.get "topics").orElse (.list [])).Iterable
  stars : IntSound X repo "stargazers_count"
  forks : IntSound X repo "forks_count"
  openIssues : IntSound X repo "open_issues_count"

/-- The actor's id is a number. -/
def ActorSound (actor : Value) : Prop := IntSound X (actor.asDict.getD []) "id"

/-- pydantic refuses the strings of the event's payload. -/
def EventRefused (repo : Dict) (actor : Value) (readme eventId : String) : Prop :=
  ∃ fields a, readFields X repo = .ok fields ∧ readActor X actor = .ok a ∧
    X.validStrings (readme :: fields.eventTitle eventId :: a.actorLogin :: a.actorAvatarUrl ::
      fields.strings) = false

/-- pydantic refuses the strings of the repository's payload. -/
def RepoRefused (repo : Dict) : Prop :=
  ∃ fields, readFields X repo = .ok fields ∧ X.validStrings fields.strings = false

section Repo

variable {X} {repo d : Dict} {k : String} {actor : Value}

theorem ends_intField : Ends (¬ IntSound X d k) False (intField X d k) where
  escapes := (Value.raises_toInt (Q := True) (by simp [Recoverable]) (by simp [Recoverable])
    (by simp [Recoverable])).trans (by simp [IntSound])
  fails := (Value.raises_toInt (Q := False) (by simp [Recoverable]) (by simp [Recoverable])
    (by simp [Recoverable])).trans (by simp)

theorem ends_readFields :
    Ends (¬ ((repo.get "topics").orElse (.list [])).Iterable) False (readFields X repo) := by
  have htopics : Ends (¬ ((repo.get "topics").orElse (.list [])).Iterable) False
      (readTopics X repo) :=
    ⟨by simp [readTopics, Recoverable], by simp [readTopics, Recoverable]⟩
  refine (htopics.bind_const fun topics _ => ends_ok).congr (by simp) (by simp)

theorem ends_readCounts : Ends (¬ (IntSound X repo "stargazers_count" ∧
    IntSound X repo "forks_count" ∧ IntSound X repo "open_issues_count")) False
    (readCounts X repo) := by
  refine (ends_intField.bind_const fun _ _ => ends_intField.bind_const fun _ _ =>
    ends_intField.bind_const fun _ _ => ends_ok).congr ?_ (by simp)
  tauto

theorem ends_readActor : Ends (¬ ActorSound X actor) False (readActor X actor) := by
  refine (ends_intField.bind_const fun _ _ => ends_ok).congr ?_ (by simp)
  simp [ActorSound]

theorem ends_construct {α : Type} {strings : List String} {a : α} :
    Ends False (X.validStrings strings = false) (X.construct strings a) :=
  ⟨by simp [Recoverable], by simp [Recoverable]⟩

/-- The payload of an event's repository. -/
theorem ends_fromCreateEvent {ts : Stamp} {eventType readme eventId : String} :
    Ends (¬ (RepoSound X repo ∧ ActorSound X actor))
      (RepoSound X repo ∧ ActorSound X actor ∧ EventRefused X repo actor readme eventId)
      (NewRepoEventPayload.fromCreateEvent X (.dict repo) ts eventType readme eventId actor) := by
  refine (ends_readFields.bind_left fun fields _ => ends_readActor.bind_left fun a _ =>
    ends_readCounts.bind_const fun counts _ => ends_construct).congr ?_ ?_
  · rw [repoSound_iff]
    tauto
  · constructor
    · rintro (h | ⟨fields, hf, h | ⟨a, ha, h | ⟨hc, hs⟩⟩⟩)
      · exact h.elim
      · exact h.elim
      · exact h.elim
      · have ht := not_not.mp (ends_readFields.ok_iff.mp ⟨fields, hf⟩).1
        obtain ⟨h₁, h₂, h₃⟩ := not_not.mp hc
        exact ⟨⟨ht, h₁, h₂, h₃⟩, not_not.mp (ends_readActor.ok_iff.mp ⟨a, ha⟩).1,
          fields, a, hf, ha, hs⟩
    · rintro ⟨⟨-, h₁, h₂, h₃⟩, -, fields, a, hf, ha, hs⟩
      exact .inr ⟨fields, hf, .inr ⟨a, ha, .inr ⟨not_not.mpr ⟨h₁, h₂, h₃⟩, hs⟩⟩⟩

/-- The payload of a repository that the search finds. -/
theorem ends_fromRepo {now : Time} : Ends (¬ RepoSound X repo) (RepoSound X repo ∧ RepoRefused X repo)
    (NewRepoPayload.fromRepo X now (.dict repo)) := by
  refine (ends_readFields.bind_left fun fields _ => ends_readCounts.bind_const fun counts _ =>
    ends_construct).congr ?_ ?_
  · rw [repoSound_iff]
    tauto
  · constructor
    · rintro (h | ⟨fields, hf, h | ⟨hc, hs⟩⟩)
      · exact h.elim
      · exact h.elim
      · have ht := not_not.mp (ends_readFields.ok_iff.mp ⟨fields, hf⟩).1
        obtain ⟨h₁, h₂, h₃⟩ := not_not.mp hc
        exact ⟨⟨ht, h₁, h₂, h₃⟩, fields, hf, hs⟩
    · rintro ⟨⟨-, h₁, h₂, h₃⟩, fields, hf, hs⟩
      exact .inr ⟨fields, hf, .inr ⟨not_not.mpr ⟨h₁, h₂, h₃⟩, hs⟩⟩

end Repo

/-! ## The events -/

/-- A response of success. -/
def Response.Success (r : Response) : Prop := 200 ≤ r.status ∧ r.status < 300

/-- The request fails with an httpx error. -/
def Fetch.Refused : Fetch → Prop
  | .httpError => True
  | .invalidUrl => False
  | .response r => r.status ≠ 404 ∧ ¬ r.Success

/-- The request for a repository makes httpx or the JSON parser raise something else. -/
def Fetch.Unreadable : Fetch → Prop
  | .httpError => False
  | .invalidUrl => True
  | .response r => r.Success ∧ ∀ v, r.body ≠ .json v

/-- The request for a repository finds JSON other than `null`. -/
def Fetch.Finds (f : Fetch) (v : Value) : Prop :=
  ∃ r, f = .response r ∧ r.Success ∧ r.body = .json v ∧ v ≠ .none

theorem Fetch.Finds.ne_none {f : Fetch} {v : Value} (h : f.Finds v) : v ≠ .none := by
  obtain ⟨-, -, -, -, hv⟩ := h
  exact hv

section Requests

variable {up i} {name : String}

theorem ends_raiseForStatus {r : Response} : Ends False (¬ r.Success) r.raiseForStatus :=
  ⟨by simp [Recoverable], by simp [Recoverable, Response.Success]⟩

theorem ends_loads {b : Body} : Ends (∀ v, b ≠ .json v) False b.loads := by
  cases b with
  | json v => exact ends_ok.congr (by simp) Iff.rfl
  | notJson | undecodable | tooDeep => exact (ends_error (by decide)).congr (by simp) Iff.rfl

theorem raiseForStatus_ok {r : Response} : r.raiseForStatus = .ok () ↔ r.Success := by
  unfold Response.raiseForStatus Response.Success
  split_ifs <;> simp [*]

theorem loads_ok {b : Body} {v : Value} : b.loads = .ok v ↔ b = .json v := by
  cases b <;> simp [Body.loads]

theorem not_success_404 {r : Response} (h : r.status = 404) : ¬ r.Success := by
  simp [Response.Success, h]

/-- The request for an event's repository. -/
theorem ends_fetchRepoMeta : Ends (up.get i (.repo name)).Unreadable (up.get i (.repo name)).Refused
    (GitHubEventsClient.fetchRepoMeta up i name) := by
  unfold GitHubEventsClient.fetchRepoMeta
  cases up.get i (.repo name) with
  | httpError => exact ends_recoverable trivial
  | invalidUrl => exact ends_error (by decide)
  | response r =>
    refine Ends.ite (fun h => ends_ok.congr ?_ ?_) fun h =>
      (ends_raiseForStatus.bind_const fun _ _ => ends_loads).congr ?_ ?_
    · simp [Fetch.Unreadable, not_success_404 h]
    · simp [Fetch.Refused, h]
    · simp [Fetch.Unreadable]
    · simp [Fetch.Refused, h]

/-- What the request finds. -/
theorem fetchRepoMeta_finds {v : Value} (hv : v ≠ .none) :
    GitHubEventsClient.fetchRepoMeta up i name = .ok v ↔ (up.get i (.repo name)).Finds v := by
  unfold GitHubEventsClient.fetchRepoMeta Fetch.Finds
  cases up.get i (.repo name) with
  | httpError => simp [Fetch.get, Except.bind_eq_ok]
  | invalidUrl => simp [Fetch.get, Except.bind_eq_ok]
  | response r =>
    simp only [Fetch.get, Except.bind_eq_ok, Except.ok.injEq, exists_eq_left',
      Fetch.response.injEq, and_iff_left hv]
    by_cases h : r.status = 404
    · rw [if_pos h]
      exact iff_of_false (fun he => hv (Except.ok.inj he).symm) fun hs => not_success_404 h hs.1
    · rw [if_neg h, Except.bind_eq_ok]
      constructor
      · rintro ⟨_, hr, hl⟩
        exact ⟨raiseForStatus_ok.mp hr, loads_ok.mp hl⟩
      · rintro ⟨hs, hb⟩
        exact ⟨(), raiseForStatus_ok.mpr hs, loads_ok.mpr hb⟩

/-- The request for a README. -/
theorem ends_fetchReadme :
    Ends (up.get i (.readme name) = .invalidUrl) (up.get i (.readme name)).Refused
      (GitHubEventsClient.fetchReadme up i name) := by
  unfold GitHubEventsClient.fetchReadme
  cases up.get i (.readme name) with
  | httpError => exact (ends_recoverable (by decide)).congr (by simp) Iff.rfl
  | invalidUrl => exact (ends_error (by decide)).congr (by simp) Iff.rfl
  | response r =>
    refine Ends.ite (fun h => ends_ok.congr (by simp) ?_) fun h =>
      (ends_raiseForStatus.bind_const fun _ _ => ends_ok).congr (by simp) ?_
    · simp [Fetch.Refused, h]
    · simp [Fetch.Refused, h]

end Requests

/-- The repository is a dict that can be read, and the actor too. -/
def EventSound (data actor : Value) : Prop :=
  ∃ repo, data.asDict = some repo ∧ RepoSound X repo ∧ ActorSound X actor

/-- The requests for the event's repository make the connector raise what the poll does not catch, or
find a repository that does. -/
def EnrichUnsound (event : Dict) : Prop :=
  (up.get i (.repo (X.str (repoName event)))).Unreadable ∨
    ∃ data, (up.get i (.repo (X.str (repoName event)))).Finds data ∧
      (up.get i (.readme (X.str (repoName event))) = .invalidUrl ∨
        ¬ (up.get i (.readme (X.str (repoName event)))).Refused ∧
          ¬ EventSound X data (event.get "actor"))

/-- A request for the event's repository fails, or pydantic refuses what they find. -/
def EnrichFails (event : Dict) : Prop :=
  (up.get i (.repo (X.str (repoName event)))).Refused ∨
    ∃ data, (up.get i (.repo (X.str (repoName event)))).Finds data ∧
      ((up.get i (.readme (X.str (repoName event)))).Refused ∨
        ∃ readme, GitHubEventsClient.fetchReadme up i (X.str (repoName event)) = .ok readme ∧
          ∃ repo, data.asDict = some repo ∧ RepoSound X repo ∧ ActorSound X (event.get "actor") ∧
            EventRefused X repo (event.get "actor") (readme.getD "")
              (X.str (event.get "id" (.str ""))))

section Enrich

variable {X up i} {event : Dict} {data actor : Value}

theorem ends_fromCreateEvent_value {ts : Stamp} {eventType readme eventId : String} :
    Ends (¬ EventSound X data actor)
      (∃ repo, data.asDict = some repo ∧ RepoSound X repo ∧ ActorSound X actor ∧
        EventRefused X repo actor readme eventId)
      (NewRepoEventPayload.fromCreateEvent X data ts eventType readme eventId actor) := by
  unfold EventSound
  cases data with
  | dict repo => exact ends_fromCreateEvent.congr (by simp [Value.asDict]) (by simp [Value.asDict])
  | _ => exact (ends_error (by decide)).congr (by simp [Value.asDict]) (by simp [Value.asDict])

theorem ends_payload {ts : Stamp} {eventType : String} :
    Ends (up.get i (.readme (X.str (repoName event))) = .invalidUrl ∨
        ¬ (up.get i (.readme (X.str (repoName event)))).Refused ∧
          ¬ EventSound X data (event.get "actor"))
      ((up.get i (.readme (X.str (repoName event)))).Refused ∨
        ∃ readme, GitHubEventsClient.fetchReadme up i (X.str (repoName event)) = .ok readme ∧
          ∃ repo, data.asDict = some repo ∧ RepoSound X repo ∧ ActorSound X (event.get "actor") ∧
            EventRefused X repo (event.get "actor") (readme.getD "")
              (X.str (event.get "id" (.str ""))))
      (do
        let readme ← GitHubEventsClient.fetchReadme up i (X.str (repoName event))
        let payload ← NewRepoEventPayload.fromCreateEvent X data ts eventType (readme.getD "")
          (X.str (event.get "id" (.str ""))) (event.get "actor")
        return some payload) :=
  ends_fetchReadme.bind_left fun readme _ =>
    (ends_fromCreateEvent_value.bind_const fun _ _ => ends_ok).congr (by simp) (by simp)

theorem ends_enrich {ts : Stamp} {eventType : String} :
    Ends (EnrichUnsound X up i event) (EnrichFails X up i event)
      (enrich X up i event ts eventType) := by
  have hfinds (Q : Value → Prop) :
      (∃ data, (up.get i (.repo (X.str (repoName event)))).Finds data ∧ Q data) ↔
        ∃ data, GitHubEventsClient.fetchRepoMeta up i (X.str (repoName event)) = .ok data ∧
          data ≠ .none ∧ Q data := by
    refine exists_congr fun data => ?_
    constructor
    · exact fun ⟨hd, hQ⟩ => ⟨(fetchRepoMeta_finds hd.ne_none).mpr hd, hd.ne_none, hQ⟩
    · exact fun ⟨hd, hn, hQ⟩ => ⟨(fetchRepoMeta_finds hn).mp hd, hQ⟩
  unfold EnrichUnsound EnrichFails enrich
  rw [hfinds, hfinds]
  refine ends_fetchRepoMeta.bind fun data _ => ?_
  cases data with
  | none => exact ends_ok.congr (by simp) (by simp)
  | _ => exact ends_payload.congr (by simp) (by simp)

end Enrich

/-- The event is a push whose `ref` is no string, and pushes are asked for. -/
def PushUnsound (spec : GitHubEventsSourceSpec) (event : Dict) : Prop :=
  ∃ payload, (event.get "payload").asDict = some payload ∧ (repoName event).truthy ∧
    isStr (event.get "type" (.str "")) "PushEvent" ∧ spec.includePushes ∧
      ∀ ref, payload.get "ref" (.str "") ≠ .str ref

/-- The value is there, and no string. -/
def NotText (v : Value) : Prop := v.truthy ∧ ∀ s, v ≠ .str s

/-- An event that makes the connector raise what the poll does not catch: no dict; a timestamp that
is no string, or has no offset where there is a watermark; and, of a new event, a push without a
`ref`, or a repository that cannot be read. -/
def EventUnsound (spec : GitHubEventsSourceSpec) (since : Option Time) (x : Value × ℕ) : Prop :=
  match x.1.asDict with
  | none => True
  | some event => NotText (event.get "created_at" (.str "")) ∨
    ∃ ts, parseTs X (event.get "created_at" (.str "")) = .ok (some ts) ∧
      (¬ ts.Comparable since ∨ ts.IsNew since ∧ (PushUnsound spec event ∨
        ∃ kind, eventKind spec event = .ok (some kind) ∧ EnrichUnsound X up x.2 event))

/-- An event on which the poll fails with a recoverable error. -/
def EventFails (spec : GitHubEventsSourceSpec) (since : Option Time) (x : Value × ℕ) : Prop :=
  ∃ event, x.1.asDict = some event ∧
    ∃ ts, parseTs X (event.get "created_at" (.str "")) = .ok (some ts) ∧ ts.Comparable since ∧
      ts.IsNew since ∧ ∃ kind, eventKind spec event = .ok (some kind) ∧ EnrichFails X up x.2 event

section Events

variable {X up i} {spec : GitHubEventsSourceSpec} {event : Dict} {since : Option Time} {ts : Stamp}
  {x : Value × ℕ}

theorem ends_unlessOld {α : Type} {U F : Prop} {y : Except Raised (Option α)} (h : Ends U F y) :
    Ends (¬ ts.Comparable since ∨ ts.IsNew since ∧ U) (ts.Comparable since ∧ ts.IsNew since ∧ F)
      (unlessOld since ts y) where
  escapes := by
    rw [raises_unlessOld, h.escapes, and_iff_left (by decide)]
    tauto
  fails := by
    rw [raises_unlessOld, h.fails]
    simp [Recoverable]

theorem ends_parseTs {v : Value} : Ends (NotText v) False (parseTs X v) := by
  unfold parseTs NotText
  refine Ends.ite (fun h => ends_ok.congr (by simp [h]) Iff.rfl) fun h => ?_
  have ht : v.truthy := by simpa using h
  cases v with
  | str s => exact ends_ok.congr (by simp) Iff.rfl
  | _ => exact (ends_error (by decide)).congr (by simp [ht]) Iff.rfl

theorem isStr_iff {v : Value} {s : String} : isStr v s ↔ v = .str s := by
  cases v <;> simp [isStr]

theorem ends_eventKind : Ends (PushUnsound spec event) False (eventKind spec event) := by
  unfold eventKind PushUnsound
  cases (event.get "payload").asDict with
  | none => exact ends_ok.congr (by simp) Iff.rfl
  | some payload =>
    simp only [Option.some.injEq, exists_eq_left']
    refine Ends.ite (fun h => ends_ok.congr (by simp [h]) Iff.rfl) fun h =>
      Ends.ite (fun hc => ?_) fun _ => Ends.ite (fun hp => ?_) fun hp => ?_
    · have hnot : ¬ isStr (event.get "type" (.str "")) "PushEvent" := by
        rw [isStr_iff, isStr_iff.mp hc]
        simp
      have hok {k : Option String} : Ends ((repoName event).truthy ∧
          isStr (event.get "type" (.str "")) "PushEvent" ∧ spec.includePushes ∧
            ∀ ref, payload.get "ref" (.str "") ≠ .str ref) False (.ok k) :=
        ends_ok.congr (by simp [hnot]) Iff.rfl
      exact Ends.ite (fun _ => hok) fun _ => hok
    · have hname : (repoName event).truthy := by simpa using h
      simp only [hname, hp, true_and]
      cases payload.get "ref" (.str "") with
      | str ref =>
        have hok {k : Option String} : Ends (∀ s, Value.str ref ≠ .str s) False (.ok k) :=
          ends_ok.congr (by simp) Iff.rfl
        exact Ends.ite (fun _ => hok) fun _ => hok
      | _ => exact (ends_error (by decide)).congr (by simp) Iff.rfl
    · refine ends_ok.congr (iff_of_false not_false ?_) Iff.rfl
      rintro ⟨-, ht, hs, -⟩
      exact hp ⟨ht, hs⟩

theorem ends_candidate : Ends
    (PushUnsound spec event ∨
      ∃ kind, eventKind spec event = .ok (some kind) ∧ EnrichUnsound X up i event)
    (∃ kind, eventKind spec event = .ok (some kind) ∧ EnrichFails X up i event)
    (GitHubEventsConnector.candidate X up i spec event ts) :=
  ends_eventKind.bind_some rfl fun _ => ends_enrich

/-- **One event.** -/
theorem ends_event : Ends (EventUnsound X up spec since x) (EventFails X up spec since x)
    (GitHubEventsConnector.item X up x.2 spec since x.1) := by
  unfold EventUnsound EventFails GitHubEventsConnector.item
  cases x.1.asDict with
  | none => exact (ends_error (by decide)).congr Iff.rfl (by simp)
  | some event =>
    simp only [Option.some.injEq, exists_eq_left']
    exact ends_parseTs.bind_some rfl fun ts => ends_unlessOld ends_candidate

end Events

/-! ## Loops -/

/-- An element of the list is in `U`, and none before it is in `U` or `F`. -/
def ReachesUnsound {α : Type} (U F : α → Prop) (xs : List α) : Prop :=
  ∃ before x after, xs = before ++ x :: after ∧ (∀ y ∈ before, ¬ U y ∧ ¬ F y) ∧ U x

section Loops

variable {α β : Type} {U F : α → Prop} {step : α → Except Raised (Option β)}

/-- **A loop escapes** when it reaches an element on which its body does. -/
theorem escapes_ofList (h : ∀ x, Ends (U x) (F x) (step x)) {xs : List α} :
    Escapes (Generator.ofList step xs).outcome ↔ ReachesUnsound U F xs := by
  refine Generator.raises_ofList.trans ?_
  refine exists₃_congr fun before x after => and_congr_right fun _ => ?_
  exact and_congr (forall₂_congr fun y _ => (h y).ok_iff) (h x).escapes

/-- A loop over the numbered elements of what a computation returns. -/
theorem escapes_ofExcept {U F : α × ℕ → Prop} {step : α × ℕ → Except Raised (Option β)}
    (h : ∀ x, Ends (U x) (F x) (step x)) {xs : Except Raised (List α)} :
    Escapes (Generator.ofExcept step (xs.map (·.zipIdx))).outcome ↔
      Escapes xs ∨ ∃ l, xs = .ok l ∧ ReachesUnsound U F l.zipIdx := by
  cases xs with
  | error e => simp [Except.map, Generator.ofExcept, Generator.raise]
  | ok l => simpa [Except.map, Generator.ofExcept] using escapes_ofList h

end Loops

/-- The poll of the events makes the connector raise what the poll does not catch: the body is nested
too deep, or no collection, or an unsound event is reached. -/
def EventsUnsound (spec : GitHubEventsSourceSpec) (since : Option Time) : Prop :=
  ∃ r, up.get 0 .events = .response r ∧ r.Success ∧ (r.body = .tooDeep ∨
    ∃ v, r.body = .json v ∧ (¬ v.Iterable ∨ ∃ events,
      (v.iter : Except Raised (List Value)) = .ok events ∧
        ReachesUnsound (EventUnsound X up spec since) (EventFails X up spec since) events.zipIdx))

section EventsPoll

variable {X up} {spec : GitHubEventsSourceSpec} {since : Option Time}

theorem not_success_304 {r : Response} (h : r.status = 304) : ¬ r.Success := by
  simp [Response.Success, h]

theorem window_of_success {r : Response} (h : up.get 0 .events = .response r) (hs : r.Success) :
    GitHubEventsConnector.window up = match r.body with
      | .json v => v.iter
      | .tooDeep => .error .recursionError
      | _ => .error (.lib .connectorParseError) := by
  have h304 : r.status ≠ 304 := fun he => not_success_304 he hs
  have hpoll : GitHubEventsClient.pollEvents up = .ok r := by
    unfold GitHubEventsClient.pollEvents
    rw [h]
    simp [Fetch.get, h304, raiseForStatus_ok.mpr hs, bind, Except.bind, pure, Except.pure]
  unfold GitHubEventsConnector.window
  rw [hpoll]
  simp only [h304, if_false]
  cases r.body <;> rfl

theorem window_of_not_success (h : ∀ r, up.get 0 .events = .response r → ¬ r.Success) :
    GitHubEventsConnector.window up = .ok [] ∨
      GitHubEventsConnector.window up = .error (.lib .connectorParseError) := by
  unfold GitHubEventsConnector.window GitHubEventsClient.pollEvents
  cases hf : up.get 0 .events with
  | httpError => exact .inr rfl
  | invalidUrl => exact .inr rfl
  | response r =>
    by_cases h304 : r.status = 304
    · left
      simp [Fetch.get, h304, bind, Except.bind, pure, Except.pure]
    · right
      have hraise : r.raiseForStatus = .error (.lib .httpError) := by
        unfold Response.raiseForStatus
        exact if_neg (h r hf)
      simp [Fetch.get, h304, hraise, bind, Except.bind]

/-- **A poll of the events** is contained exactly when nothing unsound is reached. -/
theorem events_contained :
    Contained (GitHubEventsConnector.poll X up spec since) ↔ ¬ EventsUnsound X up spec since := by
  refine not_congr ?_
  unfold GitHubEventsConnector.poll EventsUnsound
  refine (escapes_ofExcept (U := EventUnsound X up spec since) (F := EventFails X up spec since)
    fun x => ends_event).trans ?_
  by_cases h : ∃ r, up.get 0 .events = .response r ∧ r.Success
  · obtain ⟨r, hr, hs⟩ := h
    rw [window_of_success hr hs, hr]
    simp only [Fetch.response.injEq, exists_eq_left', hs, true_and]
    cases r.body with
    | json v => simp [Recoverable]
    | tooDeep => simp [Recoverable]
    | notJson | undecodable => simp [Recoverable]
  · have hnot : ∀ r, up.get 0 .events = .response r → ¬ r.Success := fun r hr hs => h ⟨r, hr, hs⟩
    refine iff_of_false ?_ ?_
    · rcases window_of_not_success hnot with hw | hw
      · simp [hw, ReachesUnsound]
      · simp [hw, Recoverable]
    · rintro ⟨r, hr, hs, -⟩
      exact hnot r hr hs

end EventsPoll

/-! ## The search -/

/-- A repository that makes the search raise what the poll does not catch: no dict; one that cannot
be read; one whose `pushed_at` has no offset, where there is a watermark. -/
def RepoUnsound (since : Option Time) (x : Value × ℕ) : Prop :=
  match x.1.asDict with
  | none => True
  | some repo => ¬ RepoSound X repo ∨ ¬ RepoRefused X repo ∧
    ¬ (pushedAtOr X (up.now x.2) (X.strOr (repo.get "pushed_at"))).Comparable since

/-- A repository whose strings pydantic refuses. -/
def RepoFails (x : Value × ℕ) : Prop :=
  ∃ repo, x.1.asDict = some repo ∧ RepoSound X repo ∧ RepoRefused X repo

/-- The request of a poll. -/
def GitHubSearchSourceSpec.request (spec : GitHubSearchSourceSpec) : Request :=
  .searchRepositories spec.fullQuery spec.sort "desc" (min spec.count 100)

/-- The search is answered with success and a dict, whose `items` are a collection (or falsy) of
which no unsound one is reached. -/
def SearchSound (spec : GitHubSearchSourceSpec) (since : Option Time) : Prop :=
  ∃ r d items, up.get 0 spec.request = .response r ∧ r.Success ∧ r.body = .json (.dict d) ∧
    (((Dict.get d "items" (.list [])).orElse (.list [])).iter : Except Raised (List Value)) =
      .ok items ∧ ¬ ReachesUnsound (RepoUnsound X up since) (RepoFails X) items.zipIdx

section SearchPoll

variable {X up i} {spec : GitHubSearchSourceSpec} {since : Option Time} {x : Value × ℕ}

theorem readFields_pushedAt {repo : Dict} {fields : RepoFields}
    (h : readFields X repo = .ok fields) : fields.pushedAt = X.strOr (repo.get "pushed_at") := by
  obtain ⟨topics, -, h⟩ := Except.bind_eq_ok.mp h
  rw [← Except.pure_eq_ok.mp h]

theorem fromRepo_occurredAt {now : Time} {repo : Dict} {p : NewRepoPayload}
    (h : NewRepoPayload.fromRepo X now (.dict repo) = .ok p) :
    p.occurredAt = pushedAtOr X now (X.strOr (repo.get "pushed_at")) := by
  obtain ⟨fields, hf, h⟩ := Except.bind_eq_ok.mp h
  obtain ⟨counts, -, h⟩ := Except.bind_eq_ok.mp h
  obtain rfl := construct_ok h
  rw [← readFields_pushedAt hf]

/-- One repository. -/
theorem ends_repo : Ends (RepoUnsound X up since x) (RepoFails X x)
    (GitHubSearchConnector.item X up x.2 since x.1) := by
  obtain ⟨v, i⟩ := x
  unfold RepoUnsound RepoFails
  cases v with
  | dict repo =>
    have hold (p : NewRepoPayload) (hp : NewRepoPayload.fromRepo X (up.now i) (.dict repo) = .ok p) :
        Ends (¬ (pushedAtOr X (up.now i) (X.strOr (Dict.get repo "pushed_at"))).Comparable since) False
          (unlessOld since p.occurredAt (.ok (some p))) := by
      rw [fromRepo_occurredAt hp]
      exact (ends_unlessOld ends_ok).congr (by simp) (by simp)
    refine (ends_fromRepo.bind_const hold).congr ?_ (by simp [Value.asDict])
    dsimp only [Value.asDict]
    tauto
  | _ => exact (ends_error (by decide)).congr (by simp [Value.asDict]) (by simp [Value.asDict])

/-- What the request finds. -/
theorem searchRepositories_ok {v : Value} :
    GitHubClient.searchRepositories up spec.fullQuery spec.sort (min spec.count 100) = .ok v ↔
      ∃ r, up.get 0 spec.request = .response r ∧ r.Success ∧ r.body = .json v := by
  unfold GitHubClient.searchRepositories GitHubSearchSourceSpec.request
  rw [Except.bind_eq_ok]
  refine exists_congr fun r => and_congr ?_ ?_
  · cases up.get 0 (.searchRepositories spec.fullQuery spec.sort "desc" (min spec.count 100)) <;>
      simp [Fetch.get]
  · rw [Except.bind_eq_ok]
    constructor
    · rintro ⟨_, hr, hl⟩
      exact ⟨raiseForStatus_ok.mp hr, loads_ok.mp hl⟩
    · rintro ⟨hs, hb⟩
      exact ⟨(), raiseForStatus_ok.mpr hs, loads_ok.mpr hb⟩

/-- The repositories of a poll, if it has any. -/
theorem searchWindow_ok {items : List Value} : GitHubSearchConnector.window up spec = .ok items ↔
    ∃ r d, up.get 0 spec.request = .response r ∧ r.Success ∧ r.body = .json (.dict d) ∧
      (((Dict.get d "items" (.list [])).orElse (.list [])).iter : Except Raised (List Value)) =
        .ok items := by
  unfold GitHubSearchConnector.window
  constructor
  · intro h
    split at h
    · cases h
    · rename_i data hdata
      obtain ⟨r, hr, hs, hb⟩ := searchRepositories_ok.mp hdata
      cases data with
      | dict d => exact ⟨r, d, hr, hs, hb, h⟩
      | _ => cases h
  · rintro ⟨r, d, hr, hs, hb, hi⟩
    rw [searchRepositories_ok.mpr ⟨r, hr, hs, hb⟩]
    exact hi

/-- Whatever else the request is answered with, the poll does not catch what it raises. -/
theorem searchWindow_error {e : Raised} (h : GitHubSearchConnector.window up spec = .error e) :
    ¬ Recoverable e := by
  unfold GitHubSearchConnector.window at h
  split at h
  · obtain rfl := Except.error.inj h
    decide
  · split at h
    · obtain rfl := Except.error.inj h
      decide
    · have hr : Raises (fun e' => e' = e) _ := ⟨e, h, rfl⟩
      obtain ⟨-, rfl⟩ := Value.raises_iter.mp hr
      decide

/-- **A poll of the search** is contained exactly when its answer is sound. -/
theorem search_contained :
    Contained (GitHubSearchConnector.poll X up spec since) ↔ SearchSound X up spec since := by
  have hpoll : Escapes (GitHubSearchConnector.poll X up spec since).outcome ↔ _ :=
    escapes_ofExcept (U := RepoUnsound X up since) (F := RepoFails X) fun x => ends_repo
  unfold Contained
  rw [hpoll]
  constructor
  · intro h
    cases hw : GitHubSearchConnector.window up spec with
    | error e => exact absurd (.inl ⟨e, hw, searchWindow_error hw⟩) h
    | ok items =>
      obtain ⟨r, d, hr, hs, hb, hi⟩ := searchWindow_ok.mp hw
      exact ⟨r, d, items, hr, hs, hb, hi, fun hreach => h (.inr ⟨items, hw, hreach⟩)⟩
  · rintro ⟨r, d, items, hr, hs, hb, hi, hreach⟩
    rw [searchWindow_ok.mpr ⟨r, d, hr, hs, hb, hi⟩]
    simpa using hreach

end SearchPoll

end OpenMagpie
