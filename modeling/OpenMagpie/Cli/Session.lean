import OpenMagpie.Auth.Tokens
import OpenMagpie.Lib.Trace

/-!
# The stored session of the CLI

CLI processes share one `config.json` and the server's refresh endpoint. A process keeps the config
that it has loaded in memory, exchanges its refresh token when it must, and saves by reading the
file's wrapper and replacing the file.

* `CliProcess.Step`: the steps of the processes, of the endpoint and of a save.
* `PairAsLoaded`: a process is refused, or begins another save, while the file holds the pair that it
  has loaded; no process stores a new pair before that save has replaced the file; no grant is lost.
* `CliProcess.Agrees`: the file and what such a save rests on then have the same live pair.
* **`stored_pair_live`**: when that holds, the stored pair is, after a first exchange and once all
  processes have finished, one that the server has minted and not rotated away, and no process
  clears such a pair.
* **`loser_clears_winner`**: a process whose refresh answers 401 clears the winner's pair.
-/

set_option autoImplicit false

namespace OpenMagpie

open Interleave

/-! ## The file -/

/-- The token pair of a session. -/
structure SessionPair where
  accessToken : String
  refreshToken : String
  deriving DecidableEq

/-- The config of an environment. -/
structure Config where
  credentials : Option SessionPair := none
  telemetryDisclosed : Bool := false
  deriving DecidableEq

/-- The wrapper: the active environment's config and the update check. -/
structure ConfigFile where
  active : Config := {}
  updateCheck : Option Time := none
  deriving DecidableEq

/-- `apply_credentials`. -/
def Config.applyCredentials (pair : SessionPair) (config : Config) : Config :=
  { config with credentials := some pair }

/-- `clear_credentials`. -/
def Config.clearCredentials (config : Config) : Config := { config with credentials := none }

/-- Why a process saves: after a 200, after a 401 for the refused pair, for a setting, or for the
update check. -/
inductive CliSave
  | refreshed
  | cleared (refused : SessionPair)
  | settings
  | updateCheck (lastCheckedAt : Time)

/-- The wrapper that `save` and `save_update_check` write, from the one they have read. -/
def CliSave.wrapper (config : Config) (file : ConfigFile) : CliSave → ConfigFile
  | refreshed | cleared _ | settings => { file with active := config }
  | updateCheck lastCheckedAt => { file with updateCheck := some lastCheckedAt }

/-! ## The processes -/

/-- The server's tables and the file; and, for the record, the pairs that refreshes minted. -/
structure CliStore where
  tables : TokenTables
  file : ConfigFile
  minted : List SessionPair := []

/-- The transaction of the endpoint. -/
def CliStore.exchange (K : OAuthToolkit) (S : AuthSettings) (now : Time) (rt : RefreshToken)
    (k : MintKeys) (s : CliStore) : CliStore :=
  { s with
    tables := TokenService.exchange K S now rt k s.tables
    minted := ⟨k.accessToken, k.refreshToken⟩ :: s.minted }

/-- Where a process stands, with its config in memory: between requests; with its refresh posted;
past the server's check; with a 200 or a 401 on its way; before the `load_file` of a save, and before
its `os.replace`. -/
inductive CliProcess
  | ready (config : Config)
  | posted (config : Config) (pair : SessionPair)
  | checked (config : Config) (pair : SessionPair) (rt : RefreshToken)
  | granted (config : Config) (pair : SessionPair)
  | refused (config : Config) (pair : SessionPair)
  | saving (config : Config) (save : CliSave)
  | replacing (config : Config) (save : CliSave) (wrapper : ConfigFile)

/-- The steps of the processes. -/
inductive CliProcess.Step (K : OAuthToolkit) (S : AuthSettings) : ThreadRel CliStore CliProcess
  -- `_refresh`, near the expiry or after a 401
  | post {s : CliStore} {config : Config} {pair : SessionPair}
      (hp : config.credentials = some pair) : Step K S (.ready config) s s (.posted config pair)
  | check {s : CliStore} {config : Config} {pair : SessionPair} {rt : RefreshToken}
      (hr : rt ∈ s.tables.refreshTokens) (ht : rt.token = pair.refreshToken)
      (hn : rt.revoked = none) : Step K S (.posted config pair) s s (.checked config pair rt)
  | unauthorized {s : CliStore} {config : Config} {pair : SessionPair}
      (hr : ∀ rt ∈ s.tables.refreshTokens, rt.token = pair.refreshToken → rt.revoked ≠ none) :
      Step K S (.posted config pair) s s (.refused config pair)
  | exchange {s : CliStore} {config : Config} {pair : SessionPair} {rt : RefreshToken} (now : Time)
      (k : MintKeys) (hk : k.Fresh s.tables) :
      Step K S (.checked config pair rt) s (s.exchange K S now rt k)
        (.granted config ⟨k.accessToken, k.refreshToken⟩)
  -- 409, another status or a transport error
  | error {s : CliStore} {config : Config} {pair : SessionPair} :
      Step K S (.posted config pair) s s (.ready config)
  | rollback {s : CliStore} {config : Config} {pair : SessionPair} {rt : RefreshToken} :
      Step K S (.checked config pair rt) s s (.ready config)
  | lose {s : CliStore} {config : Config} {pair : SessionPair} :
      Step K S (.granted config pair) s s (.ready config)
  | apply {s : CliStore} {config : Config} {pair : SessionPair} :
      Step K S (.granted config pair) s s (.saving (config.applyCredentials pair) .refreshed)
  | clear {s : CliStore} {config : Config} {pair : SessionPair} :
      Step K S (.refused config pair) s s (.saving config.clearCredentials (.cleared pair))
  -- other saves
  | disclose {s : CliStore} {config : Config} :
      Step K S (.ready config) s s (.saving { config with telemetryDisclosed := true } .settings)
  | checkUpdate {s : CliStore} {config : Config} (lastCheckedAt : Time) :
      Step K S (.ready config) s s (.saving config (.updateCheck lastCheckedAt))
  -- `load_file`, then `os.replace`
  | load {s : CliStore} {config : Config} {save : CliSave} :
      Step K S (.saving config save) s s (.replacing config save (save.wrapper config s.file))
  | replace {s : CliStore} {config : Config} {save : CliSave} {wrapper : ConfigFile} :
      Step K S (.replacing config save wrapper) s { s with file := wrapper } (.ready config)

/-- Any number of processes that have loaded the stored pair, which the server has minted. -/
def CliInit (pair : SessionPair) (c : Conf CliStore CliProcess) : Prop :=
  TokensOk c.shared.tables ∧ pair.refreshToken ∈ c.shared.tables.refreshTokens.map (·.token) ∧
    c.shared.file.active.credentials = some pair ∧ c.shared.minted = [] ∧
      ∀ p, c.thread p = .ready c.shared.file.active

/-- What a save of anything but a new pair rests on, from the 401 or from its beginning until it has
replaced the file: the refused pair, or the one that the save writes back. -/
def CliProcess.basis : CliProcess → Option (Option SessionPair)
  | refused _ pair | saving _ (.cleared pair) | replacing _ (.cleared pair) _ => some (some pair)
  | saving config .settings => some config.credentials
  | replacing _ .settings wrapper | replacing _ (.updateCheck _) wrapper =>
    some wrapper.active.credentials
  | _ => none

/-- No process posts or saves a pair after another has stored a new one: the pair that a 401 refuses
is still the stored one, or the file has none; a setting is saved by a process that has the stored
pair in memory; and a new pair is stored when no other save is under way. The answer with a new pair
is not lost. -/
def PairAsLoaded : StepCond CliStore CliProcess := fun c p _ t =>
  match c.thread p, t with
  | .granted .., .ready _ => False
  | .posted .., .refused _ pair => c.shared.file.active.credentials = some pair ∨
      c.shared.file.active.credentials = none
  | .ready config, .saving _ .settings => c.shared.file.active.credentials = config.credentials
  | .replacing _ .refreshed _, _ => ∀ q, q ≠ p → (c.thread q).basis = none
  | _, _ => True

/-! ## Pairs that are live -/

/-- The token's row is not revoked. -/
def LiveToken (t : TokenTables) (token : String) : Prop :=
  ∃ r ∈ t.refreshTokens, r.token = token ∧ r.revoked = none

/-- A pair that a refresh minted and that has not been rotated away. -/
def CliStore.Live (s : CliStore) (pair : SessionPair) : Prop :=
  pair ∈ s.minted ∧ LiveToken s.tables pair.refreshToken

section Live

variable {K : OAuthToolkit} {S : AuthSettings} {s : CliStore} {t : TokenTables} {now : Time}
  {token : String} {rt : RefreshToken} {k : MintKeys} {pair : SessionPair}

theorem HasRevoked.not_live (h : HasRevoked t token) (ht : TokensOk t) : ¬ LiveToken t token := by
  rintro ⟨r, hr, htok, hn⟩
  obtain ⟨r', hr', htok', hn'⟩ := h
  obtain rfl := Table.eq_of_key ht.tokens hr hr' (htok.trans htok'.symm)
  exact hn' hn

/-- The transaction of a refresh revokes no other token. -/
theorem LiveToken.exchange (h : LiveToken t token) (ht : TokensOk t)
    (hr : ∃ r ∈ t.refreshTokens, r.id = rt.id ∧ r.token = rt.token) (hne : token ≠ rt.token) :
    LiveToken (TokenService.exchange K S now rt k t) token := by
  obtain ⟨r, hm, rfl, hn⟩ := h
  obtain ⟨r', hm', hid', htok'⟩ := hr
  obtain ⟨f, hf, hfr⟩ := (K.revokes now rt.id t).refresh
  have hid : r.id ≠ rt.id := by
    intro hid
    obtain rfl := Table.eq_of_key ht.ids hm hm' (hid.trans hid'.symm)
    exact hne htok'
  refine ⟨f r, List.mem_append_left _ (hf ▸ List.mem_map_of_mem hm), (hfr r).2.1, ?_⟩
  exact (hfr r).2.2.2.2.mpr ⟨hn, hid⟩

theorem CliStore.Live.exchange (h : s.Live pair) (ht : TokensOk s.tables)
    (hr : ∃ r ∈ s.tables.refreshTokens, r.id = rt.id ∧ r.token = rt.token)
    (hne : pair.refreshToken ≠ rt.token) : (s.exchange K S now rt k).Live pair :=
  ⟨List.mem_cons_of_mem _ h.1, h.2.exchange ht hr hne⟩

/-- A token that a later transaction finds live was live before. -/
theorem LiveToken.of_grow {t' : TokenTables} (h : LiveToken t' token) (hg : TokensGrow t t')
    (ht' : TokensOk t') (hm : token ∈ t.refreshTokens.map (·.token)) : LiveToken t token := by
  obtain ⟨r, hr, rfl⟩ := List.mem_map.mp hm
  by_contra hdead
  have hrev : HasRevoked t r.token := ⟨r, hr, rfl, fun hn => hdead ⟨r, hr, rfl, hn⟩⟩
  exact (hrev.grow hg).not_live ht' h

/-- The minted pair. -/
theorem live_exchange (K : OAuthToolkit) (S : AuthSettings) (s : CliStore) (now : Time)
    (rt : RefreshToken) (k : MintKeys) :
    (s.exchange K S now rt k).Live ⟨k.accessToken, k.refreshToken⟩ :=
  ⟨List.mem_cons_self, _, List.mem_append_right _ (List.mem_singleton_self _), rfl, rfl⟩

/-! ## The same live pair -/

/-- The pair, if there is one, has its row. -/
def HasRow (t : TokenTables) (x : Option SessionPair) : Prop :=
  ∀ pair ∈ x, pair.refreshToken ∈ t.refreshTokens.map (·.token)

/-- The two are the same pair, if one of them is live. -/
def CliStore.Agree (s : CliStore) (x y : Option SessionPair) : Prop :=
  ∀ pair, s.Live pair → (pair ∈ x ↔ pair ∈ y)

theorem CliStore.Agree.refl (s : CliStore) (x : Option SessionPair) : s.Agree x x :=
  fun _ _ => Iff.rfl

theorem CliStore.Agree.symm {x y : Option SessionPair} (h : s.Agree x y) : s.Agree y x :=
  fun pair hl => (h pair hl).symm

theorem CliStore.Agree.trans {x y z : Option SessionPair} (h : s.Agree x y) (h' : s.Agree y z) :
    s.Agree x z := fun pair hl => (h pair hl).trans (h' pair hl)

/-- A pair with a row that is live after an exchange was live before it. -/
theorem CliStore.Live.of_exchange (h : (s.exchange K S now rt k).Live pair) (ht : TokensOk s.tables)
    (hk : k.Fresh s.tables) (hr : pair.refreshToken ∈ s.tables.refreshTokens.map (·.token)) :
    s.Live pair := by
  have hg : TokensGrow s.tables (s.exchange K S now rt k).tables := grow_exchange rt hk
  refine ⟨?_, h.2.of_grow hg (hg.ok ht) hr⟩
  obtain rfl | hm := List.mem_cons.mp h.1
  · exact absurd hr hk.refreshToken
  · exact hm

theorem CliStore.Agree.exchange {x y : Option SessionPair} (h : s.Agree x y)
    (ht : TokensOk s.tables) (hk : k.Fresh s.tables) (hx : HasRow s.tables x)
    (hy : HasRow s.tables y) : (s.exchange K S now rt k).Agree x y := by
  intro pair hl
  constructor
  · intro hp
    exact (h pair (hl.of_exchange ht hk (hx pair hp))).mp hp
  · intro hp
    exact (h pair (hl.of_exchange ht hk (hy pair hp))).mpr hp

/-- A refused pair agrees with no pair. -/
theorem agree_revoked (ht : TokensOk s.tables) (h : HasRevoked s.tables pair.refreshToken) :
    s.Agree (some pair) none := by
  intro live hl
  constructor
  · rintro ⟨⟩
    exact absurd hl.2 (h.not_live ht)
  · rintro ⟨⟩

end Live

/-! ## What a process holds -/

namespace CliProcess

/-- The config in memory. -/
def config : CliProcess → Config
  | ready config | posted config _ | checked config _ _ | granted config _ | refused config _ |
    saving config _ | replacing config _ _ => config

/-- A pair that the process has been granted and not yet stored. -/
def fresh : CliProcess → Option SessionPair
  | granted _ pair => some pair
  | saving config .refreshed | replacing config .refreshed _ => config.credentials
  | _ => none

/-- The pairs that the process holds. -/
def Holds (t : CliProcess) (pair : SessionPair) : Prop :=
  pair ∈ t.config.credentials ∨ pair ∈ t.fresh

/-- What a process knows of its pairs. -/
def Knows (s : CliStore) : CliProcess → Prop
  | ready _ => True
  | posted config pair => config.credentials = some pair
  | checked config pair rt => config.credentials = some pair ∧ rt.token = pair.refreshToken ∧
      ∃ r ∈ s.tables.refreshTokens, r.id = rt.id ∧ r.token = rt.token
  | granted _ _ => True
  | refused _ pair => HasRevoked s.tables pair.refreshToken
  | saving config save => match save with
    | .refreshed => config.credentials ≠ none
    | .cleared pair => config.credentials = none ∧ HasRevoked s.tables pair.refreshToken
    | _ => True
  | replacing config save wrapper => match save with
    | .refreshed => wrapper.active = config ∧ config.credentials ≠ none
    | .cleared pair => wrapper.active = config ∧ config.credentials = none ∧
        HasRevoked s.tables pair.refreshToken
    | _ => True

/-- What a save rests on has its row, and has the same live pair as the file. -/
def Agrees (s : CliStore) (t : CliProcess) : Prop :=
  ∀ x ∈ t.basis, HasRow s.tables x ∧ s.Agree x s.file.active.credentials

/-- What holds of one process: its pairs have rows, and the one it has been granted is live. -/
structure Ok (s : CliStore) (t : CliProcess) : Prop where
  knows : t.Knows s
  rows : ∀ pair, t.Holds pair → pair.refreshToken ∈ s.tables.refreshTokens.map (·.token)
  live : ∀ pair ∈ t.fresh, s.Live pair

/-- What holds of two processes: one does not hold what the other has been granted. -/
def Apart (t u : CliProcess) : Prop :=
  ∀ pair ∈ t.fresh, ∀ pair', u.Holds pair' → pair'.refreshToken ≠ pair.refreshToken

end CliProcess

section Steps

variable {K : OAuthToolkit} {S : AuthSettings} {s s' : CliStore} {t t' : CliProcess}
  {c : Conf CliStore CliProcess} {tr : List (Move CliStore CliProcess)} {pair : SessionPair}

/-- A step that exchanges no token leaves the tables, and the process holds nothing new. -/
theorem CliProcess.Step.cases (h : CliProcess.Step K S t s s' t') :
    (s'.tables = s.tables ∧ s'.minted = s.minted ∧ (∀ pair, t'.Holds pair → t.Holds pair) ∧
      ∀ pair ∈ t'.fresh, pair ∈ t.fresh) ∨
    ∃ config pair rt now k, k.Fresh s.tables ∧ t = .checked config pair rt ∧
      s' = s.exchange K S now rt k ∧ t' = .granted config ⟨k.accessToken, k.refreshToken⟩ := by
  cases h with
  | exchange now k hk => exact .inr ⟨_, _, _, now, k, hk, rfl, rfl, rfl⟩
  | apply =>
    refine .inl ⟨rfl, rfl, fun pair h => .inr ?_, fun pair h => h⟩
    obtain h | h := h <;> exact h
  | @load _ config save =>
    refine .inl ⟨rfl, rfl, fun pair h => ?_, fun pair h => ?_⟩
    · cases save <;> exact h
    · cases save <;> exact h
  | replace =>
    refine .inl ⟨rfl, rfl, fun pair h => .inl ?_, nofun⟩
    obtain h | h := h
    · exact h
    · cases h
  | clear =>
    refine .inl ⟨rfl, rfl, fun pair h => ?_, nofun⟩
    obtain h | h := h <;> cases h
  | lose =>
    refine .inl ⟨rfl, rfl, fun pair h => .inl ?_, nofun⟩
    obtain h | h := h
    · exact h
    · cases h
  | post | check | unauthorized | error | rollback | disclose | checkUpdate =>
    refine .inl ⟨rfl, rfl, fun pair h => .inl ?_, nofun⟩
    obtain h | h := h
    · exact h
    · cases h

theorem CliProcess.Ok.congr {u : CliProcess} (h : u.Ok s) (ht : s'.tables = s.tables)
    (hm : s'.minted = s.minted) : u.Ok s' := by
  obtain ⟨tables, file, minted⟩ := s
  obtain ⟨tables', file', minted'⟩ := s'
  obtain rfl : tables' = tables := ht
  obtain rfl : minted' = minted := hm
  exact ⟨h.knows, h.rows, h.live⟩

theorem CliProcess.Knows.grow {u : CliProcess} (h : u.Knows s) (hg : TokensGrow s.tables s'.tables) :
    u.Knows s' := by
  cases u with
  | ready | posted | granted => exact h
  | checked config pair rt =>
    obtain ⟨hp, ht, r, hr, hid, htok⟩ := h
    obtain ⟨r', hr', hid', htok', -⟩ := hg.rows r hr
    exact ⟨hp, ht, r', hr', hid'.trans hid, htok'.trans htok⟩
  | refused => exact HasRevoked.grow h hg
  | saving config save =>
    cases save with
    | refreshed => exact h
    | cleared => exact ⟨h.1, HasRevoked.grow h.2 hg⟩
    | settings | updateCheck => trivial
  | replacing config save wrapper =>
    cases save with
    | refreshed => exact h
    | cleared => exact ⟨h.1, h.2.1, HasRevoked.grow h.2.2 hg⟩
    | settings | updateCheck => trivial

theorem TokensGrow.mem_tokens {t t' : TokenTables} {token : String} (hg : TokensGrow t t')
    (h : token ∈ t.refreshTokens.map (·.token)) : token ∈ t'.refreshTokens.map (·.token) := by
  obtain ⟨r, hr, rfl⟩ := List.mem_map.mp h
  obtain ⟨r', hr', -, htok, -⟩ := hg.rows r hr
  exact List.mem_map.mpr ⟨r', hr', htok⟩

/-- Another process's exchange. -/
theorem CliProcess.Ok.exchange {u : CliProcess} (h : u.Ok s) (ho : TokensOk s.tables)
    {config : Config} {rt : RefreshToken} (ht : (checked config pair rt).Knows s)
    (ha : u.Apart (.checked config pair rt)) {now : Time} {k : MintKeys} (hk : k.Fresh s.tables) :
    u.Ok (s.exchange K S now rt k) := by
  have hg : TokensGrow s.tables (s.exchange K S now rt k).tables := grow_exchange rt hk
  refine ⟨h.knows.grow hg, fun pair' hp => hg.mem_tokens (h.rows pair' hp), fun new hn => ?_⟩
  refine (h.live new hn).exchange ho ht.2.2 fun he => ?_
  exact ha new hn pair (.inl ht.1) (ht.2.1.symm.trans he.symm)

/-- What a process knows after a step of its own. -/
theorem CliProcess.Step.knows (h : CliProcess.Step K S t s s' t') (ht : t.Ok s) : t'.Knows s' := by
  cases h with
  | post hp => exact hp
  | check hr htok => exact ⟨ht.knows, htok, _, hr, rfl, rfl⟩
  | unauthorized hr =>
    obtain ⟨r, hm, htok⟩ := List.mem_map.mp (ht.rows _ (.inl ht.knows))
    exact ⟨r, hm, htok, hr r hm htok⟩
  | clear => exact ⟨rfl, ht.knows⟩
  | @load _ config save =>
    cases save with
    | refreshed => exact ⟨rfl, ht.knows⟩
    | cleared => exact ⟨rfl, ht.knows⟩
    | settings | updateCheck => trivial
  | apply => exact nofun
  | exchange | error | rollback | lose | disclose | checkUpdate | replace => trivial

/-- What holds of a process after a step of its own. -/
theorem CliProcess.Step.ok (h : CliProcess.Step K S t s s' t') (ho : TokensOk s.tables)
    (ht : t.Ok s) : TokensOk s'.tables ∧ t'.Ok s' := by
  have hknows := h.knows ht
  obtain ⟨htab, hmin, hholds, hfresh⟩ | ⟨config, pair, rt, now, k, hk, rfl, rfl, rfl⟩ := h.cases
  · refine ⟨htab ▸ ho, hknows, fun pair hp => ?_, fun pair hp => ?_⟩
    · rw [htab]
      exact ht.rows pair (hholds pair hp)
    · obtain ⟨hm, hl⟩ := ht.live pair (hfresh pair hp)
      exact ⟨hmin ▸ hm, htab ▸ hl⟩
  · have hg : TokensGrow s.tables (s.exchange K S now rt k).tables := grow_exchange rt hk
    refine ⟨hg.ok ho, hknows, fun pair' hp => ?_, fun pair' hp => ?_⟩
    · obtain hp | hp := hp
      · exact hg.mem_tokens (ht.rows pair' (.inl hp))
      · obtain rfl := Option.some.inj hp
        obtain ⟨-, r, hr, htok, -⟩ := live_exchange K S s now rt k
        exact List.mem_map.mpr ⟨r, hr, htok⟩
    · obtain rfl := Option.some.inj hp
      exact live_exchange K S s now rt k

theorem cliPreserves (ok : StepCond CliStore CliProcess) :
    Preserves (CliProcess.Step K S) ok (fun s => TokensOk s.tables) (fun s t => t.Ok s)
      (fun _ t u => t.Apart u) where
  own hi hs _ := hs.ok hi.shared (hi.each _)
  other := by
    intro c p q s' t' hi hs _ hq
    have hp := hi.each p
    have hqp := hi.pair q p hq
    have hpq := hi.pair p q hq.symm
    obtain ⟨htab, hmin, hholds, hfresh⟩ | ⟨config, pair, rt, now, k, hk, ht, rfl, rfl⟩ := hs.cases
    · exact ⟨(hi.each q).congr htab hmin, fun new hn pair hp => hpq new (hfresh new hn) pair hp,
        fun new hn pair hp => hqp new hn pair (hholds pair hp)⟩
    · rw [ht] at hp hqp
      refine ⟨(hi.each q).exchange hi.shared hp.knows hqp hk, fun new hn pair' hp' he => ?_,
        fun new hn pair' hp' => ?_⟩
      · obtain rfl := Option.some.inj hn
        have hm := (hi.each q).rows pair' hp'
        rw [he] at hm
        exact hk.refreshToken hm
      · obtain hp' | hp' := hp'
        · exact hqp new hn pair' (.inl hp')
        · obtain rfl := Option.some.inj hp'
          intro he
          have hm := (hi.each q).rows new (.inr hn)
          rw [← he] at hm
          exact hk.refreshToken hm
  others hi _ _ _ _ hqr := hi.pair _ _ hqr

theorem CliInit.inv (h : CliInit pair c) :
    ThreadInv (fun s => TokensOk s.tables) (fun s t => CliProcess.Ok s t)
      (fun _ t u => CliProcess.Apart t u) c := by
  obtain ⟨ho, hr, hp, -, ht⟩ := h
  refine ⟨ho, fun p => ?_, fun p q _ => ?_⟩
  · rw [ht p]
    refine ⟨trivial, fun pair' hp' => ?_, nofun⟩
    obtain hp' | hp' := hp'
    · obtain rfl := Option.some.inj (hp.symm.trans hp')
      exact hr
    · cases hp'
  · rw [ht p]
    exact nofun

/-! ## The stored pair -/

/-- Nothing was exchanged yet, or the stored pair is live, or a process has yet to store one. -/
def StoredOk (c : Conf CliStore CliProcess) : Prop :=
  c.shared.minted = [] ∨ (∃ pair ∈ c.shared.file.active.credentials, c.shared.Live pair) ∨
    ∃ p, (c.thread p).fresh ≠ none

/-- The process has a 401 and is about to clear the stored pair. -/
def CliProcess.Clearing (t : CliProcess) : Prop :=
  ∃ config refused wrapper, t = .replacing config (.cleared refused) wrapper

/-- What holds in every state reached. -/
structure StoredInv (c : Conf CliStore CliProcess) : Prop where
  row : HasRow c.shared.tables c.shared.file.active.credentials
  agrees : ∀ p, (c.thread p).Agrees c.shared
  stored : StoredOk c

/-- **A process that was refused clears no live pair.** -/
theorem clearing_spares {p : ℕ} (hi : TokensOk c.shared.tables) (ht : (c.thread p).Ok c.shared)
    (ha : (c.thread p).Agrees c.shared) (hcl : (c.thread p).Clearing) :
    ∀ pair ∈ c.shared.file.active.credentials, ¬ c.shared.Live pair := by
  obtain ⟨config, refused, wrapper, he⟩ := hcl
  rw [he] at ht ha
  intro pair hp hl
  obtain ⟨-, hagree⟩ := ha _ rfl
  obtain rfl := Option.some.inj ((hagree pair hl).mpr hp)
  exact ht.knows.2.2.not_live hi hl.2

/-- What a process's save rests on after a step of its own. -/
theorem CliProcess.Step.agrees {p : ℕ} (hs : CliProcess.Step K S (c.thread p) c.shared s' t')
    (hi : TokensOk c.shared.tables) (ht : (c.thread p).Ok c.shared) (h : StoredInv c)
    (hc : PairAsLoaded c p s' t') : t'.Agrees s' := by
  have ha := h.agrees p
  generalize he : c.thread p = t at hs ht ha
  simp only [PairAsLoaded, he] at hc
  cases hs with
  | @unauthorized _ config pair hr =>
    rintro x ⟨⟩
    have hrow : pair.refreshToken ∈ c.shared.tables.refreshTokens.map (·.token) :=
      ht.rows pair (.inl ht.knows)
    refine ⟨?_, ?_⟩
    · rintro pair' ⟨⟩
      exact hrow
    · obtain hc | hc := hc <;> rw [hc]
      · exact .refl _ _
      · obtain ⟨r, hm, htok⟩ := List.mem_map.mp hrow
        exact agree_revoked hi ⟨r, hm, htok, hr r hm htok⟩
  | clear => exact ha
  | disclose =>
    rintro x ⟨⟩
    exact ⟨fun pair hp => ht.rows pair (.inl hp), hc ▸ .refl _ _⟩
  | @load _ config save =>
    cases save with
    | refreshed => exact nofun
    | cleared | settings => exact ha
    | updateCheck =>
      rintro x ⟨⟩
      exact ⟨h.row, .refl _ _⟩
  | post | check | exchange | error | rollback | lose | apply | checkUpdate | replace => exact nofun

/-- Two configurations that differ in the file only, with the same live pair in it. -/
theorem CliProcess.Agrees.file {u : CliProcess} (h : u.Agrees s) (file : ConfigFile)
    (hf : s.Agree s.file.active.credentials file.active.credentials) :
    u.Agrees { s with file := file } := by
  intro x hx
  obtain ⟨hr, ha⟩ := h x hx
  exact ⟨hr, CliStore.Agree.trans (s := s) ha hf⟩

/-- A replace that is not of a new pair leaves the file's live pair. -/
theorem agree_replace {config : Config} {save : CliSave} {wrapper : ConfigFile}
    (hi : TokensOk s.tables) (ht : (CliProcess.replacing config save wrapper).Ok s)
    (ha : (CliProcess.replacing config save wrapper).Agrees s)
    (hb : (CliProcess.replacing config save wrapper).basis ≠ none) :
    s.Agree s.file.active.credentials wrapper.active.credentials ∧
      HasRow s.tables wrapper.active.credentials := by
  cases save with
  | refreshed => exact absurd rfl hb
  | cleared refused =>
    obtain ⟨hw, hn, hrev⟩ := ht.knows
    obtain ⟨-, hagree⟩ := ha _ rfl
    rw [hw, hn]
    exact ⟨hagree.symm.trans (agree_revoked hi hrev), nofun⟩
  | settings | updateCheck =>
    obtain ⟨hr, hagree⟩ := ha _ rfl
    exact ⟨hagree.symm, hr⟩

/-- What another process's save rests on after a step. -/
theorem CliProcess.Step.agrees_other {p q : ℕ}
    (hs : CliProcess.Step K S (c.thread p) c.shared s' t') (hi : TokensOk c.shared.tables)
    (ht : (c.thread p).Ok c.shared) (h : StoredInv c) (hc : PairAsLoaded c p s' t') (hq : q ≠ p) :
    (c.thread q).Agrees s' := by
  have ha := h.agrees p
  have hu := h.agrees q
  generalize he : c.thread p = t at hs ht ha
  simp only [PairAsLoaded, he] at hc
  cases hs with
  | exchange now k hk =>
    intro x hx
    obtain ⟨hr, hagree⟩ := hu x hx
    exact ⟨fun pair hp => (grow_exchange _ hk).mem_tokens (hr pair hp),
      hagree.exchange hi hk hr h.row⟩
  | @replace _ config save wrapper =>
    cases save with
    | refreshed =>
      rw [CliProcess.Agrees, hc q hq]
      exact nofun
    | cleared | settings | updateCheck => exact hu.file wrapper (agree_replace hi ht ha nofun).1
  | post | check | unauthorized | error | rollback | lose | apply | clear | disclose | checkUpdate |
    load => exact hu

/-- The stored pair keeps a row. -/
theorem CliProcess.Step.row {p : ℕ} (hs : CliProcess.Step K S (c.thread p) c.shared s' t')
    (hi : TokensOk c.shared.tables) (ht : (c.thread p).Ok c.shared) (h : StoredInv c) :
    HasRow s'.tables s'.file.active.credentials := by
  have ha := h.agrees p
  generalize c.thread p = t at hs ht ha
  cases hs with
  | exchange now k hk => exact fun pair hp => (grow_exchange _ hk).mem_tokens (h.row pair hp)
  | @replace _ config save wrapper =>
    cases save with
    | refreshed =>
      intro pair hp
      rw [ht.knows.1] at hp
      exact ht.rows pair (.inl hp)
    | cleared | settings | updateCheck => exact (agree_replace hi ht ha nofun).2
  | post | check | unauthorized | error | rollback | lose | apply | clear | disclose | checkUpdate |
    load => exact h.row

theorem StoredOk.same (h : StoredOk c) (p : ℕ) (t' : CliProcess)
    (hf : (c.thread p).fresh ≠ none → t'.fresh ≠ none) : StoredOk (c.set p c.shared t') := by
  obtain h | h | ⟨q, hq⟩ := h
  · exact .inl h
  · exact .inr (.inl h)
  · refine .inr (.inr ⟨q, ?_⟩)
    by_cases hqp : q = p
    · subst hqp
      rw [Conf.thread_set_self]
      exact hf hq
    · rwa [Conf.thread_set_of_ne _ hqp]

/-- A replace that keeps the file's live pair. -/
theorem StoredOk.replace (h : StoredOk c) (p : ℕ) (config : Config) (wrapper : ConfigFile)
    (hf : (c.thread p).fresh = none)
    (hw : c.shared.Agree c.shared.file.active.credentials wrapper.active.credentials) :
    StoredOk (c.set p { c.shared with file := wrapper } (.ready config)) := by
  obtain h | h | ⟨q, hq⟩ := h
  · exact .inl h
  · obtain ⟨pair, hp, hl⟩ := h
    exact .inr (.inl ⟨pair, (hw pair hl).mp hp, hl⟩)
  · refine .inr (.inr ⟨q, ?_⟩)
    have hqp : q ≠ p := by
      rintro rfl
      exact hq hf
    rwa [Conf.thread_set_of_ne _ hqp]

/-- One step of a process that meets the condition. -/
theorem StoredOk.step {p : ℕ} (h : StoredInv c) (hi : TokensOk c.shared.tables)
    (ht : (c.thread p).Ok c.shared) (hs : CliProcess.Step K S (c.thread p) c.shared s' t')
    (hc : PairAsLoaded c p s' t') : StoredOk (c.set p s' t') := by
  have ha := h.agrees p
  have hsame := h.stored.same p t'
  have hrep := h.stored.replace p
  generalize he : c.thread p = t at hs ht ha hsame hrep
  simp only [PairAsLoaded, he] at hc
  cases hs with
  | exchange => exact .inr (.inr ⟨p, by simp [CliProcess.fresh]⟩)
  | lose => exact hc.elim
  | apply => exact hsame nofun
  | @load _ config save =>
    refine hsame ?_
    cases save with
    | refreshed => exact id
    | cleared | settings | updateCheck => exact fun hf => absurd rfl hf
  | post | check | unauthorized | error | rollback | clear | disclose | checkUpdate =>
    exact hsame fun hf => absurd rfl hf
  | @replace _ config save wrapper =>
    cases save with
    | refreshed =>
      obtain ⟨hw, hn⟩ := ht.knows
      obtain ⟨pair, hp⟩ := Option.ne_none_iff_exists'.mp hn
      exact .inr (.inl ⟨pair, hw ▸ hp, ht.live pair hp⟩)
    | cleared | settings | updateCheck => exact hrep config wrapper rfl (agree_replace hi ht ha nofun).1

/-- What holds in every state is kept by a step that meets the condition. -/
theorem StoredInv.step {p : ℕ} (h : StoredInv c) (hi : TokensOk c.shared.tables)
    (ht : (c.thread p).Ok c.shared) (hs : CliProcess.Step K S (c.thread p) c.shared s' t')
    (hc : PairAsLoaded c p s' t') : StoredInv (c.set p s' t') where
  row := hs.row hi ht h
  stored := StoredOk.step h hi ht hs hc
  agrees q := by
    by_cases hq : q = p
    · subst hq
      rw [Conf.thread_set_self]
      exact hs.agrees hi ht h hc
    · rw [Conf.thread_set_of_ne _ hq]
      exact hs.agrees_other hi ht h hc hq

theorem CliInit.stored (h : CliInit pair c) : StoredInv c := by
  obtain ⟨-, hr, hp, hm, ht⟩ := h
  refine ⟨?_, fun p => ?_, .inl hm⟩
  · rw [hp]
    rintro _ ⟨⟩
    exact hr
  · rw [ht p]
    exact nofun

/-- The process is not refreshing or saving. -/
def CliProcess.Finished (t : CliProcess) : Prop := ∃ config, t = .ready config

/-- **The stored pair is live.** In every run of any number of processes that meets the condition:
after a first exchange, once all processes have finished, the stored pair is one that the server has
minted and not rotated away; and a process that was refused never clears such a pair. -/
theorem stored_pair_live
    (h : Run (CliProcess.Step K S) (CliInit pair) PairAsLoaded tr c) :
    (c.shared.minted ≠ [] → (∀ p, (c.thread p).Finished) →
      ∃ pair ∈ c.shared.file.active.credentials, c.shared.Live pair) ∧
    ∀ m ∈ tr, m.prev.Clearing →
      ∀ pair ∈ m.before.shared.file.active.credentials, ¬ m.before.shared.Live pair := by
  have hinv : ∀ c, ReachIn (CliProcess.Step K S) (CliInit pair) PairAsLoaded c →
      ThreadInv (fun s => TokensOk s.tables) (fun s t => CliProcess.Ok s t)
        (fun _ t u => CliProcess.Apart t u) c := fun c hc =>
    hc.threads (fun _ hi => hi.inv) (cliPreserves PairAsLoaded)
  have hrun := (h.strengthen hinv).invariant (I := fun tr c => StoredInv c ∧
    ∀ m ∈ tr, m.prev.Clearing →
      ∀ pair ∈ m.before.shared.file.active.credentials, ¬ m.before.shared.Live pair)
    (fun c hi => ⟨hi.stored, by simp⟩) ?_
  · refine ⟨fun hm hfin => ?_, hrun.2⟩
    obtain hs | hs | ⟨p, hp⟩ := hrun.1.stored
    · exact absurd hs hm
    · exact hs
    · obtain ⟨config, hconfig⟩ := hfin p
      rw [hconfig] at hp
      exact absurd rfl hp
  · rintro tr c p s t ⟨hst, hcl⟩ hs ⟨hc, hi⟩
    refine ⟨hst.step hi.shared (hi.each p) hs hc, fun m hm => ?_⟩
    obtain rfl | hm := List.mem_cons.mp hm
    · exact clearing_spares hi.shared (hi.each p) (hst.agrees p)
    · exact hcl m hm

end Steps

/-! ## A lost race -/

/-- The config of the sample session. -/
def sampleConfig : Config := { credentials := some ⟨"a1", "r1"⟩ }

/-- Processes that have loaded it. -/
def cliStart : Conf CliStore CliProcess :=
  ⟨{ tables := ⟨[⟨1, "a1", 7, 3600⟩], [sampleRefresh]⟩, file := { active := sampleConfig } },
    fun _ => .ready sampleConfig⟩

theorem init_cliStart : CliInit ⟨"a1", "r1"⟩ cliStart :=
  ⟨⟨by decide, by decide⟩, by decide, rfl, rfl, fun _ => rfl⟩

/-- Every process but the first, once the second is ready. -/
theorem finished_others {s s' : CliStore} {t : CliProcess} {config : Config} {q : ℕ} (hq : q ≠ 0) :
    (((cliStart.set 0 s t).set 1 s' (.ready config)).thread q).Finished := by
  by_cases h1 : q = 1
  · subst h1
    exact ⟨config, Conf.thread_set_self _ _ _ _⟩
  · rw [Conf.thread_set_of_ne _ h1, Conf.thread_set_of_ne _ hq]
    exact ⟨sampleConfig, rfl⟩

/-- A second process is refused and clears the old pair before the first stores the new one. -/
theorem stored_pair_live_sample : ∃ tr, ∃ c : Conf CliStore CliProcess,
    Run (CliProcess.Step sampleToolkit {}) (CliInit ⟨"a1", "r1"⟩) PairAsLoaded tr c ∧
      c.shared.minted = [⟨"a2", "r2"⟩] ∧
      (∃ pair ∈ c.shared.file.active.credentials, c.shared.Live pair) ∧
      ∃ m ∈ tr, m.prev.Clearing ∧ m.before.shared.file.active.credentials = some ⟨"a1", "r1"⟩ ∧
        ¬ m.before.shared.Live ⟨"a1", "r1"⟩ := by
  have h0 : Run (CliProcess.Step sampleToolkit {}) (CliInit ⟨"a1", "r1"⟩) PairAsLoaded []
      cliStart := .init init_cliStart
  have h1 := h0.next 0 (.post rfl) rfl rfl trivial
  have h2 := h1.again (.check List.mem_cons_self rfl rfl) trivial
  have h3 := h2.again
    (.exchange 10 ⟨2, "a2", 2, "r2"⟩ ⟨by decide, by decide, by decide, by decide⟩) trivial
  have h4 := h3.again .apply trivial
  have h5 := h4.next 1 (.post rfl) rfl rfl trivial
  have h6 := h5.again (.unauthorized (by decide)) (.inl rfl)
  have h7 := h6.again .clear trivial
  have h8 := h7.again .load trivial
  have h9 := h8.again .replace trivial
  have h10 := h9.next 0 .load rfl rfl trivial
  have h11 := h10.again .replace fun q hq => by
    rw [Conf.thread_set_of_ne _ hq]
    obtain ⟨config, hconfig⟩ := finished_others hq
    rw [hconfig]
    rfl
  obtain ⟨hlive, hspared⟩ := stored_pair_live h11
  have hclearing := hspared _ (List.mem_cons_of_mem _ (List.mem_cons_of_mem _ List.mem_cons_self))
    ⟨_, _, _, rfl⟩
  refine ⟨_, _, h11, rfl, hlive nofun fun p => ?_, _, List.mem_cons_of_mem _
    (List.mem_cons_of_mem _ List.mem_cons_self), ⟨_, _, _, rfl⟩, rfl, hclearing _ rfl⟩
  by_cases hp : p = 0
  · subst hp
    exact ⟨_, rfl⟩
  · rw [Conf.thread_set_of_ne _ hp]
    exact finished_others hp

/-- **The loser clears the winner's pair.** A second process posts the old refresh token, is answered
401 and saves its cleared config: all have finished, and no pair is stored. -/
theorem loser_clears_winner : ∃ c : Conf CliStore CliProcess,
    Reach (CliProcess.Step sampleToolkit {}) (CliInit ⟨"a1", "r1"⟩) c ∧
      c.shared.minted = [⟨"a2", "r2"⟩] ∧ (∀ p, (c.thread p).Finished) ∧
      c.shared.file.active.credentials = none := by
  have h0 : Reach (CliProcess.Step sampleToolkit {}) (CliInit ⟨"a1", "r1"⟩) cliStart :=
    .init init_cliStart
  -- the winner
  have h1 := h0.next 0 (.post rfl) rfl rfl
  have h2 := h1.again (.check List.mem_cons_self rfl rfl)
  have h3 := h2.again
    (.exchange 10 ⟨2, "a2", 2, "r2"⟩ ⟨by decide, by decide, by decide, by decide⟩)
  have h4 := ((h3.again .apply).again .load).again .replace
  -- the loser
  have h5 := h4.next 1 (.post rfl) rfl rfl
  have h6 := h5.again (.unauthorized (by decide))
  have h7 := ((h6.again .clear).again .load).again .replace
  refine ⟨_, h7, rfl, fun p => ?_, rfl⟩
  by_cases hp : p = 0
  · subst hp
    exact ⟨_, rfl⟩
  · exact finished_others hp

end OpenMagpie
