import Mathlib.Tactic.SplitIfs
import OpenMagpie.Lib.Interleave

/-!
# The device handshake

A CLI polls for the token pair that a browser's `complete` puts into the session's cache bag. Every
request reads the bag with one `get` and writes it with one `set` or `delete`.

* `DeviceSessionState`: the bag; `normalizeUserCode`, `deviceSecretMatches`: what it checks.
* `DeviceThread.Step`: the cache operations of the poll, complete and deny requests of one session.
* `BagAsRead`: a request that mints, stores or takes finds the bag as it read it.
* **`handover_once`**: when that holds, one pair is minted, one response returns it, and none after a
  denial; in every run only the session's code mints and only its secret is answered.
* **`handover_twice`**: two completes that read one pending bag, two polls that read one completed
  bag, and a complete that a denial overtakes.
-/

set_option autoImplicit false

namespace OpenMagpie

open Interleave

/-! ## The bag -/

/-- An access and a refresh token, by the serial number of their mint. -/
abbrev TokenPair := ℕ

/-- The functions on strings that the requests use. -/
structure DeviceFns where
  sha256 : String → String
  isalnum : Char → Bool
  upper : String → String

/-- The phase of a session. -/
inductive DeviceSessionStatus
  | pending
  | completed
  deriving DecidableEq

/-- The cache bag of a session. -/
structure DeviceSessionState where
  status : DeviceSessionStatus
  userCode : String
  deviceSecretHash : String
  tokens : Option TokenPair := none
  deriving DecidableEq

namespace DeviceSessionState

variable (X : DeviceFns)

/-- The bag that `DeviceSessionsCreateView` puts. -/
def create (userCode deviceSecret : String) : DeviceSessionState where
  status := .pending
  userCode := userCode
  deviceSecretHash := X.sha256 deviceSecret

/-- `complete_with`. -/
def completeWith (state : DeviceSessionState) (tokens : TokenPair) : DeviceSessionState :=
  { state with status := .completed, tokens := some tokens }

/-- `is_completed`. -/
def IsCompleted (state : DeviceSessionState) : Prop := state.status = .completed

instance (state : DeviceSessionState) : Decidable state.IsCompleted := by
  unfold IsCompleted; infer_instance

end DeviceSessionState

section

variable (X : DeviceFns)

/-- `_normalize_user_code`. -/
def normalizeUserCode (value : String) : String :=
  X.upper (String.ofList (value.toList.filter X.isalnum))

/-- `_device_secret_matches`. -/
def deviceSecretMatches (presented storedHash : String) : Prop :=
  presented ≠ "" ∧ storedHash ≠ "" ∧ X.sha256 presented = storedHash

/-- The submitted code is the bag's. -/
def userCodeMatches (submitted : String) (state : DeviceSessionState) : Prop :=
  normalizeUserCode X submitted ≠ "" ∧ normalizeUserCode X state.userCode ≠ "" ∧
    normalizeUserCode X submitted = normalizeUserCode X state.userCode

end

/-! ## The requests -/

/-- The cache under the session's key; and, for the record, the pairs minted with the codes that
were submitted, the pairs that responses carried with the secrets presented and whether the request
came after a denial, and whether a denial was answered. -/
structure DeviceCache where
  bag : Option DeviceSessionState
  minted : List (TokenPair × String) := []
  returned : List (TokenPair × String × Bool) := []
  denied : Bool := false

/-- Where a request stands. -/
inductive DeviceThread
  | idle
  /-- A poll that has read a completed bag. -/
  | taking (state : DeviceSessionState) (secret : String) (late : Bool)
  /-- A poll that has its answer. -/
  | answering (state : DeviceSessionState) (secret : String) (late : Bool)
  /-- A complete that has read a pending bag and checked the code. -/
  | minting (state : DeviceSessionState) (code : String)
  /-- A complete that has minted a pair. -/
  | storing (state : DeviceSessionState) (tokens : TokenPair)
  /-- A deny that has deleted the bag. -/
  | denying
  /-- The TTL of the key. -/
  | expiry

/-- The record after a poll's response: `cli_poll_view` carries the tokens of the bag, if any. -/
def DeviceCache.respond (c : DeviceCache) (state : DeviceSessionState) (secret : String)
    (late : Bool) : DeviceCache :=
  match state.tokens with
  | none => c
  | some tokens => { c with returned := (tokens, secret, late) :: c.returned }

/-- The cache operations of the requests on one session. -/
inductive DeviceThread.Step (X : DeviceFns) : ThreadRel DeviceCache DeviceThread
  -- poll
  | pollPending {c : DeviceCache} {state : DeviceSessionState} {secret : String}
      (hb : c.bag = some state) (hs : deviceSecretMatches X secret state.deviceSecretHash)
      (hc : ¬ state.IsCompleted) : Step X .idle c c (.answering state secret c.denied)
  | pollCompleted {c : DeviceCache} {state : DeviceSessionState} {secret : String}
      (hb : c.bag = some state) (hs : deviceSecretMatches X secret state.deviceSecretHash)
      (hc : state.IsCompleted) : Step X .idle c c (.taking state secret c.denied)
  | take {c : DeviceCache} {state : DeviceSessionState} {secret : String} {late : Bool} :
      Step X (.taking state secret late) c { c with bag := none } (.answering state secret late)
  | respond {c : DeviceCache} {state : DeviceSessionState} {secret : String} {late : Bool} :
      Step X (.answering state secret late) c (c.respond state secret late) .idle
  -- complete
  | check {c : DeviceCache} {state : DeviceSessionState} {code : String}
      (hb : c.bag = some state) (hc : ¬ state.IsCompleted) (hm : userCodeMatches X code state) :
      Step X .idle c c (.minting state code)
  | mint {c : DeviceCache} {state : DeviceSessionState} {code : String} {tokens : TokenPair}
      (hnew : tokens ∉ c.minted.map (·.1)) :
      Step X (.minting state code) c { c with minted := (tokens, code) :: c.minted }
        (.storing state tokens)
  | put {c : DeviceCache} {state : DeviceSessionState} {tokens : TokenPair} :
      Step X (.storing state tokens) c { c with bag := some (state.completeWith tokens) } .idle
  -- deny
  | deny {c : DeviceCache} : Step X .idle c { c with bag := none } .denying
  | denied {c : DeviceCache} : Step X .denying c { c with denied := true } .idle
  -- any other answer: 400, 401, 403, 404 or 409
  | refuse {c : DeviceCache} : Step X .idle c c .idle
  | expire {c : DeviceCache} : Step X .expiry c { c with bag := none } .expiry

variable (X : DeviceFns) (userCode deviceSecret : String)

/-- A session that has been created, before its first request. -/
def DeviceInit (c : Conf DeviceCache DeviceThread) : Prop :=
  c.shared = { bag := some (.create X userCode deviceSecret) } ∧
    ∀ p, c.thread p = .idle ∨ c.thread p = .expiry

/-- The bag is as the request read it when the request mints, stores or takes, and no other request
has minted without having stored. -/
def BagAsRead : StepCond DeviceCache DeviceThread := fun c p _ _ =>
  match c.thread p with
  | .taking state .. | .storing state _ => c.shared.bag = some state
  | .minting state _ => c.shared.bag = some state ∧
      ∀ q state' tokens, c.thread q ≠ .storing state' tokens
  | _ => True

/-! ## In every run -/

/-- A bag of the session: as it was created, or completed with a minted pair. -/
def IsBag (minted : List (TokenPair × String)) (state : DeviceSessionState) : Prop :=
  state = .create X userCode deviceSecret ∨ ∃ tokens ∈ minted.map (·.1),
    state = (DeviceSessionState.create X userCode deviceSecret).completeWith tokens

/-- What a request knows. -/
def DeviceThread.Knows (minted : List (TokenPair × String)) : DeviceThread → Prop
  | taking state secret _ => IsBag X userCode deviceSecret minted state ∧ state.IsCompleted ∧
      deviceSecretMatches X secret (X.sha256 deviceSecret)
  | answering state secret _ => IsBag X userCode deviceSecret minted state ∧
      deviceSecretMatches X secret (X.sha256 deviceSecret)
  | minting state code => state = .create X userCode deviceSecret ∧
      userCodeMatches X code (.create X userCode deviceSecret)
  | storing state tokens => state = .create X userCode deviceSecret ∧ tokens ∈ minted.map (·.1)
  | idle | denying | expiry => True

/-- What the cache and the record satisfy. -/
structure DeviceCache.Ok (c : DeviceCache) : Prop where
  bag : ∀ state ∈ c.bag, IsBag X userCode deviceSecret c.minted state
  minted : ∀ m ∈ c.minted, userCodeMatches X m.2 (.create X userCode deviceSecret)
  returned : ∀ r ∈ c.returned, r.1 ∈ c.minted.map (·.1) ∧
    deviceSecretMatches X r.2.1 (X.sha256 deviceSecret)

variable {X userCode deviceSecret} {c : Conf DeviceCache DeviceThread}
  {ok : StepCond DeviceCache DeviceThread}

theorem IsBag.mono {m m' : List (TokenPair × String)} {state : DeviceSessionState}
    (h : IsBag X userCode deviceSecret m state) (hm : m ⊆ m') :
    IsBag X userCode deviceSecret m' state :=
  h.imp_right fun ⟨tokens, ht, he⟩ => ⟨tokens, List.map_subset _ hm ht, he⟩

theorem IsBag.hash {m : List (TokenPair × String)} {state : DeviceSessionState}
    (h : IsBag X userCode deviceSecret m state) :
    state.deviceSecretHash = X.sha256 deviceSecret := by
  rcases h with rfl | ⟨_, _, rfl⟩ <;> rfl

theorem IsBag.of_not_completed {m : List (TokenPair × String)} {state : DeviceSessionState}
    (h : IsBag X userCode deviceSecret m state) (hc : ¬ state.IsCompleted) :
    state = .create X userCode deviceSecret :=
  h.resolve_right fun ⟨_, _, he⟩ => hc (he ▸ rfl)

theorem IsBag.tokens {m : List (TokenPair × String)} {state : DeviceSessionState}
    (h : IsBag X userCode deviceSecret m state) {tokens : TokenPair}
    (ht : state.tokens = some tokens) : tokens ∈ m.map (·.1) ∧
      state = (DeviceSessionState.create X userCode deviceSecret).completeWith tokens := by
  rcases h with rfl | ⟨tokens', hm, rfl⟩
  · cases ht
  · obtain rfl : tokens' = tokens := Option.some.inj ht
    exact ⟨hm, rfl⟩

theorem DeviceThread.Knows.mono {m m' : List (TokenPair × String)} {t : DeviceThread}
    (h : t.Knows X userCode deviceSecret m) (hm : m ⊆ m') : t.Knows X userCode deviceSecret m' := by
  cases t with
  | taking => exact ⟨h.1.mono hm, h.2⟩
  | answering => exact ⟨h.1.mono hm, h.2⟩
  | minting => exact h
  | storing => exact ⟨h.1, List.map_subset _ hm h.2⟩
  | idle | denying | expiry => trivial

/-- No step forgets a minted pair. -/
theorem DeviceThread.Step.minted_subset {t t' : DeviceThread} {s s' : DeviceCache}
    (h : Step X t s s' t') : s.minted ⊆ s'.minted := by
  cases h with
  | mint => exact List.subset_cons_self _ _
  | @respond _ state =>
    unfold DeviceCache.respond
    cases state.tokens <;> exact fun _ h => h
  | _ => exact fun _ h => h

/-- **One step keeps the cache, the record and the request in order.** -/
theorem DeviceThread.Step.keeps {t t' : DeviceThread} {s s' : DeviceCache} (h : Step X t s s' t')
    (hs : s.Ok X userCode deviceSecret) (ht : t.Knows X userCode deviceSecret s.minted) :
    s'.Ok X userCode deviceSecret ∧ t'.Knows X userCode deviceSecret s'.minted := by
  cases h with
  | pollPending hb hsec hc =>
    have hbag := hs.bag _ hb
    exact ⟨hs, hbag, hbag.hash ▸ hsec⟩
  | pollCompleted hb hsec hc =>
    have hbag := hs.bag _ hb
    exact ⟨hs, hbag, hc, hbag.hash ▸ hsec⟩
  | take => exact ⟨⟨nofun, hs.minted, hs.returned⟩, ht.1, ht.2.2⟩
  | @respond _ state secret late =>
    refine ⟨?_, trivial⟩
    unfold DeviceCache.respond
    cases htok : state.tokens with
    | none => exact hs
    | some tokens =>
      refine ⟨hs.bag, hs.minted, fun r hr => ?_⟩
      rcases List.mem_cons.mp hr with rfl | hr
      · exact ⟨(ht.1.tokens htok).1, ht.2⟩
      · exact hs.returned r hr
  | check hb hc hm =>
    obtain rfl := (hs.bag _ hb).of_not_completed hc
    exact ⟨hs, rfl, hm⟩
  | mint =>
    refine ⟨⟨fun state hb => (hs.bag state hb).mono (List.subset_cons_self _ _), fun m hm => ?_,
      fun r hr => ?_⟩, ht.1, List.mem_cons_self⟩
    · rcases List.mem_cons.mp hm with rfl | hm
      · exact ht.2
      · exact hs.minted m hm
    · exact ⟨List.mem_cons_of_mem _ (hs.returned r hr).1, (hs.returned r hr).2⟩
  | put =>
    refine ⟨⟨fun state hb => ?_, hs.minted, hs.returned⟩, trivial⟩
    obtain rfl := Option.some.inj hb
    exact .inr ⟨_, ht.2, by rw [ht.1]⟩
  | deny => exact ⟨⟨nofun, hs.minted, hs.returned⟩, trivial⟩
  | denied => exact ⟨⟨hs.bag, hs.minted, hs.returned⟩, trivial⟩
  | refuse => exact ⟨hs, trivial⟩
  | expire => exact ⟨⟨nofun, hs.minted, hs.returned⟩, trivial⟩

/-- **In every run** only the session's code mints and only its secret is answered. -/
theorem device_ok (h : ReachIn (DeviceThread.Step X) (DeviceInit X userCode deviceSecret) ok c) :
    c.shared.Ok X userCode deviceSecret ∧
      ∀ p, (c.thread p).Knows X userCode deviceSecret c.shared.minted := by
  refine h.each (G := fun s => s.Ok X userCode deviceSecret)
    (L := fun s t => t.Knows X userCode deviceSecret s.minted) (fun c hc => ?_) ?_ ?_
  · refine ⟨?_, fun p => ?_⟩
    · rw [hc.1]
      exact ⟨fun state hb => .inl (Option.some.inj hb).symm, nofun, nofun⟩
    · rcases hc.2 p with hp | hp <;> rw [hp] <;> trivial
  · exact fun hG hL hs _ => hs.keeps hG (hL _)
  · exact fun _ hL hs _ _ => (hL _).mono hs.minted_subset

/-- A session whose bag is pending has no pair, but for one that is being stored. -/
def PendingUnminted (c : Conf DeviceCache DeviceThread) : Prop :=
  ∀ state ∈ c.shared.bag, ¬ state.IsCompleted →
    c.shared.minted = [] ∨ ∃ q state' tokens, c.thread q = .storing state' tokens

theorem pendingUnminted
    (h : ReachIn (DeviceThread.Step X) (DeviceInit X userCode deviceSecret) ok c) :
    PendingUnminted c := by
  refine h.invariant (I := PendingUnminted) (fun c hc => ?_) fun c p s t hi hs _ => ?_
  · rw [PendingUnminted, hc.1]
    exact fun _ _ _ => .inl rfl
  · intro state hb hc
    have other (hbag : s.bag = c.shared.bag) (hm : s.minted = c.shared.minted)
        (hp : ∀ state' tokens, c.thread p ≠ .storing state' tokens) :
        s.minted = [] ∨ ∃ q state' tokens, (c.set p s t).thread q = .storing state' tokens := by
      rw [hm]
      refine (hi state (hbag ▸ hb) hc).imp_right fun ⟨q, state', tokens, hq⟩ => ⟨q, state', tokens, ?_⟩
      rw [Conf.thread_set_of_ne, hq]
      rintro rfl
      exact hp _ _ hq
    generalize ht : c.thread p = t₀ at hs
    cases hs with
    | pollPending | pollCompleted | check | denied | refuse =>
      exact other rfl rfl fun _ _ h => by cases ht.symm.trans h
    | @respond _ state' secret late =>
      refine other ?_ ?_ fun _ _ h => by cases ht.symm.trans h
      · unfold DeviceCache.respond
        split <;> rfl
      · unfold DeviceCache.respond
        split <;> rfl
    | mint => exact .inr ⟨p, _, _, Conf.thread_set_self c p _ _⟩
    | put =>
      obtain rfl := Option.some.inj hb
      exact absurd rfl hc
    | take | deny | expire => cases hb

/-! ## When the bag is as read -/

/-- What the cache and the record satisfy while every bag is as read. -/
structure DeviceCache.Once (c : DeviceCache) : Prop where
  minted : c.minted.length ≤ 1
  returned : c.returned.length ≤ 1
  fresh : ∀ state ∈ c.bag, state.IsCompleted → c.returned = []
  denied : c.denied = true → c.bag = none
  onTime : ∀ r ∈ c.returned, r.2.2 = false

/-- A poll that is about to return a pair. -/
def DeviceThread.Carries : DeviceThread → Prop
  | answering state .. => state.tokens ≠ none
  | _ => False

/-- A complete that has minted a pair. -/
def DeviceThread.Stores : DeviceThread → Prop
  | storing .. => True
  | _ => False

/-- What a request knows of the cache while every bag is as read. -/
def DeviceThread.Once (c : DeviceCache) : DeviceThread → Prop
  | taking _ _ late => late = false
  | answering state _ late => late = false ∧ (state.tokens ≠ none → c.bag = none ∧ c.returned = [])
  | storing .. => c.returned = [] ∧ ∀ state ∈ c.bag, ¬ state.IsCompleted
  | denying => c.bag = none
  | idle | minting .. | expiry => True

/-- At most one request has the pair. -/
def DeviceThread.Apart (t t' : DeviceThread) : Prop :=
  ¬ ((t.Stores ∨ t.Carries) ∧ (t'.Stores ∨ t'.Carries))

/-- What holds in every run. -/
def DeviceSound (X : DeviceFns) (userCode deviceSecret : String) (c : Conf DeviceCache DeviceThread) :
    Prop :=
  (c.shared.Ok X userCode deviceSecret ∧
    ∀ p, (c.thread p).Knows X userCode deviceSecret c.shared.minted) ∧ PendingUnminted c

/-- While every bag is as read. -/
abbrev DeviceOnce (c : Conf DeviceCache DeviceThread) : Prop :=
  ThreadInv DeviceCache.Once DeviceThread.Once (fun _ => DeviceThread.Apart) c

section Step

variable {p q : ℕ} {s : DeviceCache} {t : DeviceThread}

/-- **The stepping request** keeps the cache and itself in order. -/
theorem DeviceOnce.own (hi : DeviceOnce c) (hs : DeviceThread.Step X (c.thread p) c.shared s t)
    (hr : BagAsRead c p s t) (hk : DeviceSound X userCode deviceSecret c) : s.Once ∧ t.Once s := by
  obtain ⟨⟨hok, hknows⟩, hpend⟩ := hk
  have hG := hi.shared
  have hL := hi.each p
  have hkp := hknows p
  have ontime {state : DeviceSessionState} (hb : c.shared.bag = some state) :
      c.shared.denied = false := by
    cases hd : c.shared.denied with
    | false => rfl
    | true => cases hb.symm.trans (hG.denied hd)
  unfold BagAsRead at hr
  generalize c.thread p = t₀ at hs hL hkp hr
  cases hs with
  | pollPending hb _ hc =>
    refine ⟨hG, ontime hb, fun htok => ?_⟩
    rw [(hok.bag _ hb).of_not_completed hc] at htok
    exact absurd rfl htok
  | pollCompleted hb => exact ⟨hG, ontime hb⟩
  | take =>
    have hfresh := hG.fresh _ hr hkp.2.1
    exact ⟨⟨hG.minted, hG.returned, nofun, fun _ => rfl, hG.onTime⟩, hL, fun _ => ⟨rfl, hfresh⟩⟩
  | @respond _ state secret late =>
    refine ⟨?_, trivial⟩
    unfold DeviceCache.respond
    cases htok : state.tokens with
    | none => exact hG
    | some tokens =>
      obtain ⟨hbag, hret⟩ := hL.2 (by simp [htok])
      refine ⟨hG.minted, by simp [hret], fun state hb => ?_, hG.denied, fun r hm => ?_⟩
      · cases hb.symm.trans hbag
      · obtain rfl := List.mem_singleton.mp (hret ▸ hm)
        exact hL.1
  | check => exact ⟨hG, trivial⟩
  | mint =>
    obtain ⟨hb, hno⟩ := hr
    obtain ⟨rfl, -⟩ := hkp
    have hempty : c.shared.minted = [] := (hpend _ hb nofun).resolve_right
      fun ⟨q, state', tokens, hq⟩ => hno q state' tokens hq
    have hret : c.shared.returned = [] := by
      refine List.eq_nil_iff_forall_not_mem.mpr fun r hm => ?_
      have := (hok.returned r hm).1
      rw [hempty] at this
      cases this
    refine ⟨⟨by simp [hempty], hG.returned, hG.fresh, hG.denied, hG.onTime⟩, hret, ?_⟩
    intro state hb'
    obtain rfl := Option.some.inj (hb.symm.trans hb')
    exact nofun
  | put =>
    refine ⟨⟨hG.minted, hG.returned, fun _ _ _ => hL.1, fun hd => ?_, hG.onTime⟩, trivial⟩
    cases hr.symm.trans (hG.denied hd)
  | deny => exact ⟨⟨hG.minted, hG.returned, nofun, fun _ => rfl, hG.onTime⟩, rfl⟩
  | denied => exact ⟨⟨hG.minted, hG.returned, hG.fresh, fun _ => hL, hG.onTime⟩, trivial⟩
  | refuse => exact ⟨hG, trivial⟩
  | expire => exact ⟨⟨hG.minted, hG.returned, nofun, fun _ => rfl, hG.onTime⟩, trivial⟩

/-- A request that gets the pair takes it from the bag, where no other request has it. -/
theorem DeviceOnce.apart (hi : DeviceOnce c) (hs : DeviceThread.Step X (c.thread p) c.shared s t)
    (hr : BagAsRead c p s t) (hk : DeviceSound X userCode deviceSecret c) :
    t.Apart (c.thread q) := by
  obtain ⟨⟨hok, hknows⟩, hpend⟩ := hk
  have hLq := hi.each q
  have hkp := hknows p
  have hkq := hknows q
  unfold BagAsRead at hr
  generalize c.thread p = t₀ at hs hkp hr
  rintro ⟨ht, hq⟩
  cases hs with
  | pollPending hb _ hc =>
    rcases ht with ht | ht
    · exact ht
    · rw [(hok.bag _ hb).of_not_completed hc] at ht
      exact ht rfl
  | take =>
    have hdone := hkp.2.1
    generalize hqt : c.thread q = tq at hq hLq
    cases tq with
    | storing => exact hLq.2 _ hr hdone
    | answering =>
      obtain ⟨hbag, -⟩ := hLq.2 (hq.resolve_left id)
      cases hr.symm.trans hbag
    | _ => exact hq.elim id id
  | mint =>
    obtain ⟨hb, hno⟩ := hr
    obtain ⟨rfl, -⟩ := hkp
    have hempty : c.shared.minted = [] := (hpend _ hb nofun).resolve_right
      fun ⟨q, state', tokens, hq⟩ => hno q state' tokens hq
    generalize hqt : c.thread q = tq at hq hkq
    cases tq with
    | storing state' tokens => exact hno q state' tokens hqt
    | answering state' =>
      obtain ⟨tokens, htok⟩ := Option.ne_none_iff_exists'.mp (hq.resolve_left id)
      have hmem := (hkq.1.tokens htok).1
      rw [hempty] at hmem
      cases hmem
    | _ => exact hq.elim id id
  | pollCompleted | respond | check | put | deny | denied | refuse | expire => exact ht.elim id id

/-- A request keeps what it knows while the pair's places stay as they are, or the bag goes. -/
theorem DeviceThread.Once.mono {t : DeviceThread} {s s' : DeviceCache} (h : t.Once s)
    (hb : s'.bag = s.bag ∨ s'.bag = none) (hret : s'.returned = s.returned) : t.Once s' := by
  cases t with
  | answering state =>
    refine ⟨h.1, fun htok => ?_⟩
    obtain ⟨hbag, hr⟩ := h.2 htok
    exact ⟨hb.elim (fun hb => hb.trans hbag) id, hret.trans hr⟩
  | storing =>
    refine ⟨hret.trans h.1, fun state hm => ?_⟩
    rcases hb with hb | hb
    · exact h.2 state (hb ▸ hm)
    · cases hm.symm.trans hb
  | denying => exact hb.elim (fun hb => hb.trans h) id
  | taking => exact h
  | idle | minting | expiry => trivial

/-- A request that has no pair and has not deleted the bag is not disturbed. -/
theorem DeviceThread.Once.of_not {t : DeviceThread} {s s' : DeviceCache} (h : t.Once s)
    (hp : ¬ (t.Stores ∨ t.Carries)) (hd : t ≠ .denying) : t.Once s' := by
  cases t with
  | answering state => exact ⟨h.1, fun htok => absurd (.inr htok) hp⟩
  | storing => exact absurd (.inl trivial) hp
  | denying => exact absurd rfl hd
  | taking => exact h
  | idle | minting | expiry => trivial

/-- **Another request** is not disturbed. -/
theorem DeviceOnce.other (hi : DeviceOnce c) (hs : DeviceThread.Step X (c.thread p) c.shared s t)
    (hr : BagAsRead c p s t) (hqp : q ≠ p) : (c.thread q).Once s := by
  have hL := hi.each q
  have hP := hi.pair p q hqp.symm
  unfold BagAsRead at hr
  generalize c.thread p = t₀ at hs hr hP
  cases hs with
  | take | deny | expire => exact hL.mono (.inr rfl) rfl
  | pollPending | pollCompleted | check | mint | denied | refuse => exact hL.mono (.inl rfl) rfl
  | @respond _ state =>
    unfold DeviceCache.respond
    cases htok : state.tokens with
    | none => exact hL
    | some tokens =>
      have hno : ¬ ((c.thread q).Stores ∨ (c.thread q).Carries) := fun hq =>
        hP ⟨.inr (by simp [DeviceThread.Carries, htok]), hq⟩
      by_cases hd : c.thread q = .denying
      · rw [hd] at hL ⊢
        exact hL
      · exact hL.of_not hno hd
  | put =>
    refine hL.of_not (fun hq => hP ⟨.inl trivial, hq⟩) fun hd => ?_
    rw [hd] at hL
    cases hr.symm.trans hL

end Step

theorem DeviceInit.once (h : DeviceInit X userCode deviceSecret c) : DeviceOnce c := by
  have hidle (p : ℕ) : (c.thread p).Once c.shared ∧ ¬ ((c.thread p).Stores ∨ (c.thread p).Carries) := by
    rcases h.2 p with hp | hp <;> rw [hp] <;> exact ⟨trivial, fun h => h.elim id id⟩
  refine ⟨?_, fun p => (hidle p).1, fun p q _ hpq => (hidle p).2 hpq.1⟩
  rw [h.1]
  exact ⟨Nat.zero_le _, Nat.zero_le _, fun _ _ _ => rfl, nofun, nofun⟩

/-- **The pair is in one place.** -/
theorem deviceOnce
    (h : ReachIn (DeviceThread.Step X) (DeviceInit X userCode deviceSecret) BagAsRead c) :
    DeviceOnce c := by
  have hs := h.strengthen (K := DeviceSound X userCode deviceSecret)
    fun c hc => ⟨device_ok hc, pendingUnminted hc⟩
  refine hs.threads (fun c hc => hc.once) ⟨?_, ?_, ?_⟩
  · exact fun hi hs hr => DeviceOnce.own hi hs hr.1 hr.2.1
  · intro c p q s t hi hs hr hqp
    have ha : t.Apart (c.thread q) := DeviceOnce.apart hi hs hr.1 hr.2.1
    exact ⟨DeviceOnce.other hi hs hr.1 hqp, ha, fun h => ha h.symm⟩
  · exact fun hi _ _ _ _ hqr => hi.pair _ _ hqr

/-- **The handover.** In every run in which the bag is as a request read it whenever the request
mints, stores or takes, at most one pair is minted, at most one response returns it, and none to a
request that came after a denial was answered; and every mint was for the session's code and every
return for its secret. -/
theorem handover_once
    (h : ReachIn (DeviceThread.Step X) (DeviceInit X userCode deviceSecret) BagAsRead c) :
    c.shared.minted.length ≤ 1 ∧ c.shared.returned.length ≤ 1 ∧
      (∀ r ∈ c.shared.returned, r.2.2 = false) ∧
      (∀ m ∈ c.shared.minted, userCodeMatches X m.2 (.create X userCode deviceSecret)) ∧
      ∀ r ∈ c.shared.returned, deviceSecretMatches X r.2.1 (X.sha256 deviceSecret) := by
  have honce := (deviceOnce h).shared
  have hok := (device_ok h).1
  exact ⟨honce.minted, honce.returned, honce.onTime, hok.minted, fun r hr => (hok.returned r hr).2⟩

/-! ## Requests that overlap -/

/-- The functions on the strings of the sample session. -/
def sampleFns : DeviceFns where
  sha256 s := if s = "secret" then
    "2bb80d537b1da3e38bd30361aa855686bde0eacd7162fef6a25fe97bf527a25b" else s
  isalnum c := c ≠ '-'
  upper := id

/-- The bag of the sample session. -/
def samplePending : DeviceSessionState := .create sampleFns "AB-CD" "secret"

/-- The bag completed with pair `n`. -/
def sampleCompleted (n : TokenPair) : DeviceSessionState := samplePending.completeWith n

theorem sampleCode : userCodeMatches sampleFns "AB-CD" samplePending := by
  refine ⟨?_, ?_, rfl⟩ <;> decide

theorem sampleSecret :
    deviceSecretMatches sampleFns "secret" (samplePending.deviceSecretHash) :=
  ⟨by decide, by decide, rfl⟩

/-- The session before its first request. -/
def deviceStart : Conf DeviceCache DeviceThread := ⟨{ bag := some samplePending }, fun _ => .idle⟩

theorem init_deviceStart : DeviceInit sampleFns "AB-CD" "secret" deviceStart :=
  ⟨rfl, fun _ => .inl rfl⟩

/-- The cache with pair 1 minted. -/
def deviceMinted (bag : Option DeviceSessionState) (denied : Bool) : DeviceCache :=
  { bag := bag, minted := [(1, "AB-CD")], denied := denied }

theorem check_start {c : DeviceCache} (hb : c.bag = some samplePending) :
    DeviceThread.Step sampleFns .idle c c (.minting samplePending "AB-CD") :=
  .check hb nofun sampleCode

theorem poll_completed {c : DeviceCache} (hb : c.bag = some (sampleCompleted 1)) :
    DeviceThread.Step sampleFns .idle c c (.taking (sampleCompleted 1) "secret" c.denied) :=
  .pollCompleted hb sampleSecret rfl

theorem mint_start : DeviceThread.Step sampleFns (.minting samplePending "AB-CD")
    deviceStart.shared (deviceMinted (some samplePending) false) (.storing samplePending 1) :=
  .mint (by decide)

theorem put_start {denied : Bool} {bag : Option DeviceSessionState} :
    DeviceThread.Step sampleFns (.storing samplePending 1) (deviceMinted bag denied)
      (deviceMinted (some (sampleCompleted 1)) denied) .idle := .put

theorem poll_pending {c : DeviceCache} (hb : c.bag = some samplePending) :
    DeviceThread.Step sampleFns .idle c c (.answering samplePending "secret" c.denied) :=
  .pollPending hb sampleSecret nofun

/-- A poll reads the pending bag while a complete is under way, and is answered after it; the next poll
takes the pair, and a denial lands before its answer. -/
theorem handover_once_sample : ∃ c : Conf DeviceCache DeviceThread,
    c.shared.returned = [(1, "secret", false)] ∧ c.shared.denied = true ∧
      c.shared.minted.length ≤ 1 := by
  have h0 : ReachIn (DeviceThread.Step sampleFns) (DeviceInit sampleFns "AB-CD" "secret") BagAsRead
      deviceStart := .init init_deviceStart
  have h1 := h0.next 0 (check_start rfl) rfl rfl trivial
  have h2 := h1.next 1 (poll_pending rfl) rfl rfl trivial
  have h3 := h2.next 0 mint_start rfl rfl ⟨rfl, fun q state tokens hq => ?_⟩
  · have h4 := h3.again put_start rfl
    have h5 := h4.next 1 DeviceThread.Step.respond rfl rfl trivial
    have h6 := h5.again (poll_completed rfl) trivial
    have h7 := h6.again DeviceThread.Step.take rfl
    have h8 := h7.next 2 DeviceThread.Step.deny rfl rfl trivial
    have h9 := h8.next 1 DeviceThread.Step.respond rfl rfl trivial
    have h10 := h9.next 2 DeviceThread.Step.denied rfl rfl trivial
    exact ⟨_, rfl, rfl, (handover_once h10).1⟩
  · -- the other requests store nothing
    by_cases hq1 : q = 1
    · subst hq1
      cases hq
    · rw [Conf.thread_set_of_ne _ hq1] at hq
      by_cases hq0 : q = 0
      · subst hq0
        cases hq
      · rw [Conf.thread_set_of_ne _ hq0] at hq
        cases hq

/-- **Overlapping requests.** Two completes that read the pending bag mint two pairs; two polls that
read the completed bag return one pair twice; and a complete that had read the bag before a denial
was answered completes the session, so that a later poll returns a pair. -/
theorem handover_twice :
    (∃ c, Reach (DeviceThread.Step sampleFns) (DeviceInit sampleFns "AB-CD" "secret") c ∧
      c.shared.minted.map (·.1) = [2, 1]) ∧
    (∃ c, Reach (DeviceThread.Step sampleFns) (DeviceInit sampleFns "AB-CD" "secret") c ∧
      c.shared.returned = [(1, "secret", false), (1, "secret", false)]) ∧
    ∃ c, Reach (DeviceThread.Step sampleFns) (DeviceInit sampleFns "AB-CD" "secret") c ∧
      c.shared.returned = [(1, "secret", true)] := by
  have h0 : Reach (DeviceThread.Step sampleFns) (DeviceInit sampleFns "AB-CD" "secret")
      deviceStart := .init init_deviceStart
  have h1 := h0.next 0 (check_start rfl) rfl rfl
  refine ⟨?_, ?_, ?_⟩
  · have h2 := h1.next 1 (check_start rfl) rfl rfl
    have h3 := h2.next 0 mint_start rfl rfl
    have hmint : DeviceThread.Step sampleFns (.minting samplePending "AB-CD")
        (deviceMinted (some samplePending) false)
        { deviceMinted (some samplePending) false with minted := [(2, "AB-CD"), (1, "AB-CD")] }
        (.storing samplePending 2) := .mint (by decide)
    have h4 := h3.next 1 hmint rfl rfl
    exact ⟨_, h4, rfl⟩
  · have h2 := h1.again mint_start
    have h3 := h2.again put_start
    have h4 := h3.again (poll_completed rfl)
    have h5 := h4.next 1 (poll_completed rfl) rfl rfl
    have h6 := h5.next 0 DeviceThread.Step.take rfl rfl
    have h7 := h6.again DeviceThread.Step.respond
    have h8 := h7.next 1 DeviceThread.Step.take rfl rfl
    have h9 := h8.again DeviceThread.Step.respond
    exact ⟨_, h9, rfl⟩
  · have h2 := h1.again mint_start
    have h3 := h2.next 1 DeviceThread.Step.deny rfl rfl
    have h4 := h3.again DeviceThread.Step.denied
    have h5 := h4.next 0 put_start rfl rfl
    have h6 := h5.next 1 (poll_completed rfl) rfl rfl
    have h7 := h6.again DeviceThread.Step.take
    have h8 := h7.again DeviceThread.Step.respond
    exact ⟨_, h8, rfl⟩

end OpenMagpie
