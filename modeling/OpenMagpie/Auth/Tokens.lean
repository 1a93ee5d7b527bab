import Mathlib.Tactic.Linarith
import OpenMagpie.Common.Locks
import OpenMagpie.Lib.Table
import OpenMagpie.Watches.Models

/-!
# Session tokens

A refresh request exchanges a refresh token for a new pair: it takes the token's lock, reads the row,
checks that it is not revoked, and revokes and mints in one transaction. A logout revokes a pair
without the lock.

* `OAuthToolkit`: the toolkit's `RefreshToken.revoke`, by what it does to the tables.
* `TokenService.mintPair`, `TokenService.revoke`: the service.
* `RefreshThread.Step`: the refresh requests, logins, logouts and the clock.
* `RefreshInTime`: a transaction begins while its request holds the lock, no logout revokes the row under
  it, and the token that it read was young.
* `Excluded`: at most one request holds a lock, so the row of a request that does is not exchanged
  under it.
* **`refresh_once`**: in every such run each token is exchanged at most once, and neither a revoked nor
  an old one is.
* **`refresh_overtaken`**: a request that outlives its lock, one that a logout overtakes, and an old
  token.
-/

set_option autoImplicit false

namespace OpenMagpie

open Interleave

/-! ## Tables -/

/-- A row of `AccessToken`. -/
structure AccessToken where
  id : Id
  token : String
  userId : Id
  expires : Time
  deriving DecidableEq

/-- A row of `RefreshToken`. -/
structure RefreshToken where
  id : Id
  token : String
  userId : Id
  accessTokenId : Option Id
  created : Time
  revoked : Option Time := none
  deriving DecidableEq

/-- The two tables. -/
structure TokenTables where
  accessTokens : List AccessToken := []
  refreshTokens : List RefreshToken := []

/-- The settings of `OAUTH2_PROVIDER`, and the TTL of the refresh lock. -/
structure AuthSettings where
  accessTokenExpiresSeconds : ℤ := 3600
  refreshTokenExpireSeconds : ℤ := 14 * 86400
  refreshTokenLockTimeoutSeconds : ℤ := 30

/-- What the toolkit's `revoke` of row `pk` does: it marks the row, unless it is revoked, and deletes
its access token; the other columns stay. -/
structure Revokes (pk : Id) (t t' : TokenTables) : Prop where
  refresh : ∃ f : RefreshToken → RefreshToken, t'.refreshTokens = t.refreshTokens.map f ∧
    ∀ r, (f r).id = r.id ∧ (f r).token = r.token ∧ (f r).userId = r.userId ∧
      (f r).created = r.created ∧ ((f r).revoked = none ↔ r.revoked = none ∧ r.id ≠ pk)
  access : ∀ a, a ∈ t'.accessTokens ↔ a ∈ t.accessTokens ∧
    ∀ r ∈ t.refreshTokens, r.id = pk → r.revoked = none → r.accessTokenId ≠ some a.id

/-- The toolkit. -/
structure OAuthToolkit where
  revoke : Time → Id → TokenTables → TokenTables
  revokes : ∀ now pk t, Revokes pk t (revoke now pk t)

/-- The keys of a new pair of rows. -/
structure MintKeys where
  accessId : Id
  accessToken : String
  refreshId : Id
  refreshToken : String

/-- The keys are not in the tables. -/
structure MintKeys.Fresh (k : MintKeys) (t : TokenTables) : Prop where
  accessId : k.accessId ∉ t.accessTokens.map (·.id)
  accessToken : k.accessToken ∉ t.accessTokens.map (·.token)
  refreshId : k.refreshId ∉ t.refreshTokens.map (·.id)
  refreshToken : k.refreshToken ∉ t.refreshTokens.map (·.token)

namespace TokenTables

/-- `access.delete()`: the foreign key of its refresh token is set to null. -/
def deleteAccess (id : Id) (t : TokenTables) : TokenTables where
  accessTokens := t.accessTokens.filter (·.id ≠ id)
  refreshTokens := Table.update (fun r => r.accessTokenId = some id)
    (fun r => { r with accessTokenId := none }) t.refreshTokens

end TokenTables

namespace TokenService

/-- `mint_pair`. -/
def mintPair (S : AuthSettings) (now : Time) (userId : Id) (k : MintKeys) (t : TokenTables) :
    TokenTables where
  accessTokens := t.accessTokens ++
    [⟨k.accessId, k.accessToken, userId, now + S.accessTokenExpiresSeconds⟩]
  refreshTokens := t.refreshTokens ++
    [{ id := k.refreshId, token := k.refreshToken, userId := userId,
       accessTokenId := some k.accessId, created := now }]

/-- `revoke`: the refresh token of the pair, unless it is revoked, and the access token. -/
def revoke (K : OAuthToolkit) (now : Time) (tokenValue : String) (t : TokenTables) : TokenTables :=
  match t.accessTokens.find? (·.token = tokenValue) with
  | none => t
  | some access =>
    match t.refreshTokens.find? (·.accessTokenId = some access.id) with
    | none => t.deleteAccess access.id
    | some refresh =>
      if refresh.revoked = none then (K.revoke now refresh.id t).deleteAccess access.id
      else t.deleteAccess access.id

/-- The transaction of `TokensRefreshView.post`: revoke and mint. -/
def exchange (K : OAuthToolkit) (S : AuthSettings) (now : Time) (rt : RefreshToken) (k : MintKeys)
    (t : TokenTables) : TokenTables :=
  mintPair S now rt.userId k (K.revoke now rt.id t)

end TokenService

/-! ## The requests -/

/-- An exchange: the refresh token, whether its row was revoked when the transaction began, and the
token's age. -/
structure TokenExchange where
  token : String
  revoked : Bool
  age : Time

/-- The tables, the locks with their expiry, and the clock; and, for the record, the leases and the
exchanges. -/
structure TokenStore where
  clock : Time := 0
  tables : TokenTables := {}
  locks : String → Option (LockToken × Time) := fun _ => none
  issued : List LockToken := []
  exchanges : List TokenExchange := []

namespace TokenStore

variable (s : TokenStore)

/-- `cache.get` of a lock. -/
def lock (name : String) : Option LockToken :=
  match s.locks name with
  | some (lease, until_) => if s.clock < until_ then some lease else none
  | none => none

/-- The transaction of a refresh. -/
def exchange (K : OAuthToolkit) (S : AuthSettings) (rt : RefreshToken) (k : MintKeys) :
    TokenStore :=
  { s with
    tables := TokenService.exchange K S s.clock rt k s.tables
    exchanges := ⟨rt.token, s.tables.refreshTokens.any fun r => r.id = rt.id ∧ r.revoked ≠ none,
      s.clock - rt.created⟩ :: s.exchanges }

end TokenStore

/-- How a refresh is answered. -/
inductive RefreshAnswer
  | pair
  | unknown
  | revoked
  | failed
  deriving DecidableEq

/-- Where a refresh stands, with its lease: past the lock, after the read, after the check, and with
its answer before and after the `get` of the release. -/
inductive RefreshThread
  | idle
  | entered (token : String) (lease : LockToken)
  | fetched (rt : RefreshToken) (lease : LockToken)
  | checked (rt : RefreshToken) (lease : LockToken)
  | leaving (token : String) (lease : LockToken) (answer : RefreshAnswer)
  | deleting (token : String)
  | clock

/-- The steps of the requests. -/
inductive RefreshThread.Step (K : OAuthToolkit) (S : AuthSettings) (lockName : String → String) :
    ThreadRel TokenStore RefreshThread
  -- a refresh
  | lock {s : TokenStore} {token : String} (lease : LockToken) (hl : s.lock (lockName token) = none)
      (hnew : lease ∉ s.issued) :
      Step K S lockName .idle s
        { s with
          locks := Function.update s.locks (lockName token)
            (some (lease, s.clock + S.refreshTokenLockTimeoutSeconds))
          issued := lease :: s.issued } (.entered token lease)
  | conflict {s : TokenStore} {token : String} (hl : s.lock (lockName token) ≠ none) :
      Step K S lockName .idle s s .idle
  | get {s : TokenStore} {rt : RefreshToken} {lease : LockToken}
      (hr : rt ∈ s.tables.refreshTokens) :
      Step K S lockName (.entered rt.token lease) s s (.fetched rt lease)
  | doesNotExist {s : TokenStore} {token : String} {lease : LockToken}
      (hr : token ∉ s.tables.refreshTokens.map (·.token)) :
      Step K S lockName (.entered token lease) s s (.leaving token lease .unknown)
  | check {s : TokenStore} {rt : RefreshToken} {lease : LockToken} (hr : rt.revoked = none) :
      Step K S lockName (.fetched rt lease) s s (.checked rt lease)
  | revoked {s : TokenStore} {rt : RefreshToken} {lease : LockToken} (hr : rt.revoked ≠ none) :
      Step K S lockName (.fetched rt lease) s s (.leaving rt.token lease .revoked)
  | exchange {s : TokenStore} {rt : RefreshToken} {lease : LockToken} (k : MintKeys)
      (hk : k.Fresh s.tables) :
      Step K S lockName (.checked rt lease) s (s.exchange K S rt k) (.leaving rt.token lease .pair)
  | rollback {s : TokenStore} {rt : RefreshToken} {lease : LockToken} :
      Step K S lockName (.checked rt lease) s s (.leaving rt.token lease .failed)
  | release {s : TokenStore} {token : String} {lease : LockToken} {answer : RefreshAnswer}
      (hl : s.lock (lockName token) = some lease) :
      Step K S lockName (.leaving token lease answer) s s (.deleting token)
  | leave {s : TokenStore} {token : String} {lease : LockToken} {answer : RefreshAnswer}
      (hl : s.lock (lockName token) ≠ some lease) :
      Step K S lockName (.leaving token lease answer) s s .idle
  | delete {s : TokenStore} {token : String} :
      Step K S lockName (.deleting token) s
        { s with locks := Function.update s.locks (lockName token) none } .idle
  | crash {s : TokenStore} {t : RefreshThread} : Step K S lockName t s s .idle
  -- a login or sign-up, and a logout
  | login {s : TokenStore} (userId : Id) (k : MintKeys) (hk : k.Fresh s.tables) :
      Step K S lockName .idle s
        { s with tables := TokenService.mintPair S s.clock userId k s.tables } .idle
  | logout {s : TokenStore} (tokenValue : String) :
      Step K S lockName .idle s
        { s with tables := TokenService.revoke K s.clock tokenValue s.tables } .idle
  | tick {s : TokenStore} (now : Time) (hn : s.clock ≤ now) :
      Step K S lockName .clock s { s with clock := now } .clock

/-- The refresh tokens have ids and tokens of their own. -/
structure TokensOk (t : TokenTables) : Prop where
  ids : (t.refreshTokens.map (·.id)).Nodup
  tokens : (t.refreshTokens.map (·.token)).Nodup

/-- Any such tables, no exchange yet, and no request. -/
def RefreshInit (c : Conf TokenStore RefreshThread) : Prop :=
  TokensOk c.shared.tables ∧ c.shared.exchanges = [] ∧
    ∀ p, c.thread p = .idle ∨ c.thread p = .clock

/-- The row is there, and revoked. -/
def RowRevoked (t : TokenTables) (id : Id) : Prop :=
  ∃ r ∈ t.refreshTokens, r.id = id ∧ r.revoked ≠ none

/-- The row that a request has read and may still exchange. -/
def RefreshThread.row : RefreshThread → Option RefreshToken
  | .fetched rt _ | .checked rt _ => some rt
  | _ => none

/-- The conditions on a step. -/
structure RefreshInTime (S : AuthSettings) (lockName : String → String)
    (c : Conf TokenStore RefreshThread) (p : ℕ) (s : TokenStore) (t : RefreshThread) : Prop where
  /-- A transaction begins while the lock of its token is its request's own and has not expired. -/
  lock : ∀ rt lease, c.thread p = .checked rt lease → t = .leaving rt.token lease .pair →
    c.shared.lock (lockName rt.token) = some lease
  /-- A logout revokes no row that a request has read and may still exchange. -/
  logout : c.thread p = .idle → ∀ q, ∀ rt ∈ (c.thread q).row, RowRevoked s.tables rt.id →
    RowRevoked c.shared.tables rt.id
  /-- A row that is read will not pass its age while a lock lasts. -/
  young : ∀ rt lease, c.thread p = .entered rt.token lease → t = .fetched rt lease →
    c.shared.clock + S.refreshTokenLockTimeoutSeconds - rt.created ≤ S.refreshTokenExpireSeconds

/-! ## Rows -/

/-- The token has a row, and the row is revoked. -/
def HasRevoked (t : TokenTables) (token : String) : Prop :=
  ∃ r ∈ t.refreshTokens, r.token = token ∧ r.revoked ≠ none

section Rows

variable {K : OAuthToolkit} {S : AuthSettings} {now : Time} {t t' : TokenTables} {pk : Id}
  {token : String} {rt : RefreshToken} {k : MintKeys}

/-- The tables after a step: the rows keep their keys and stay revoked, and new ones have fresh
keys. -/
structure TokensGrow (t t' : TokenTables) : Prop where
  ok : TokensOk t → TokensOk t'
  rows : ∀ r ∈ t.refreshTokens, ∃ r' ∈ t'.refreshTokens, r'.id = r.id ∧ r'.token = r.token ∧
    (r.revoked ≠ none → r'.revoked ≠ none)

theorem TokensGrow.refl (t : TokenTables) : TokensGrow t t :=
  ⟨id, fun r hr => ⟨r, hr, rfl, rfl, id⟩⟩

theorem TokensGrow.trans {t'' : TokenTables} (h : TokensGrow t t') (h' : TokensGrow t' t'') :
    TokensGrow t t'' := by
  refine ⟨fun ht => h'.ok (h.ok ht), fun r hr => ?_⟩
  obtain ⟨r', hr', hid', htok', hrev'⟩ := h.rows r hr
  obtain ⟨r'', hr'', hid'', htok'', hrev''⟩ := h'.rows r' hr'
  exact ⟨r'', hr'', hid''.trans hid', htok''.trans htok', fun hn => hrev'' (hrev' hn)⟩

theorem HasRevoked.grow (h : HasRevoked t token) (hg : TokensGrow t t') : HasRevoked t' token := by
  obtain ⟨r, hr, rfl, hn⟩ := h
  obtain ⟨r', hr', -, htok, hrev⟩ := hg.rows r hr
  exact ⟨r', hr', htok, hrev hn⟩

/-- Rows that are rewritten one by one keep their keys. -/
theorem map_keys {f : RefreshToken → RefreshToken}
    (ht : t'.refreshTokens = t.refreshTokens.map f) (hid : ∀ r, (f r).id = r.id)
    (htok : ∀ r, (f r).token = r.token) :
    t'.refreshTokens.map (·.id) = t.refreshTokens.map (·.id) ∧
      t'.refreshTokens.map (·.token) = t.refreshTokens.map (·.token) := by
  rw [ht, List.map_map, List.map_map]
  exact ⟨List.map_congr_left fun r _ => hid r, List.map_congr_left fun r _ => htok r⟩

theorem TokensGrow.of_map {f : RefreshToken → RefreshToken}
    (ht : t'.refreshTokens = t.refreshTokens.map f) (hid : ∀ r, (f r).id = r.id)
    (htok : ∀ r, (f r).token = r.token) (hrev : ∀ r, r.revoked ≠ none → (f r).revoked ≠ none) :
    TokensGrow t t' where
  ok h := by
    obtain ⟨hids, htokens⟩ := map_keys ht hid htok
    exact ⟨hids ▸ h.ids, htokens ▸ h.tokens⟩
  rows r hr := ⟨f r, ht ▸ List.mem_map_of_mem hr, hid r, htok r, hrev r⟩

theorem Revokes.keys (h : Revokes pk t t') :
    t'.refreshTokens.map (·.id) = t.refreshTokens.map (·.id) ∧
      t'.refreshTokens.map (·.token) = t.refreshTokens.map (·.token) := by
  obtain ⟨f, hf, hr⟩ := h.refresh
  exact map_keys hf (fun r => (hr r).1) fun r => (hr r).2.1

theorem Revokes.grow (h : Revokes pk t t') : TokensGrow t t' := by
  obtain ⟨f, hf, hr⟩ := h.refresh
  refine .of_map hf (fun r => (hr r).1) (fun r => (hr r).2.1) fun r hn hc => hn ?_
  exact ((hr r).2.2.2.2.mp hc).1

theorem Revokes.marks (h : Revokes pk t t') {r : RefreshToken} (hr : r ∈ t.refreshTokens)
    (hid : r.id = pk) : HasRevoked t' r.token := by
  obtain ⟨f, hf, hfr⟩ := h.refresh
  refine ⟨f r, hf ▸ List.mem_map_of_mem hr, (hfr r).2.1, fun hc => ?_⟩
  exact ((hfr r).2.2.2.2.mp hc).2 hid

theorem grow_deleteAccess (id : Id) (t : TokenTables) : TokensGrow t (t.deleteAccess id) := by
  refine .of_map (f := fun r => if r.accessTokenId = some id then { r with accessTokenId := none }
    else r) ?_ (fun r => ?_) (fun r => ?_) fun r hr => ?_
  · simp [TokenTables.deleteAccess, Table.update]
  all_goals split_ifs <;> first | rfl | exact hr

theorem grow_mintPair (userId : Id) (hid : k.refreshId ∉ t.refreshTokens.map (·.id))
    (htok : k.refreshToken ∉ t.refreshTokens.map (·.token)) :
    TokensGrow t (TokenService.mintPair S now userId k t) where
  ok h := by
    refine ⟨?_, ?_⟩
    · rw [TokenService.mintPair, List.map_append]
      exact h.ids.append (List.nodup_singleton _) (by simpa using hid)
    · rw [TokenService.mintPair, List.map_append]
      exact h.tokens.append (List.nodup_singleton _) (by simpa using htok)
  rows r hr := ⟨r, List.mem_append_left _ hr, rfl, rfl, id⟩

theorem grow_revoke (tokenValue : String) :
    TokensGrow t (TokenService.revoke K now tokenValue t) := by
  unfold TokenService.revoke
  split
  · exact .refl t
  · split
    · exact grow_deleteAccess _ t
    · split_ifs
      · exact (K.revokes now _ t).grow.trans (grow_deleteAccess _ _)
      · exact grow_deleteAccess _ t

/-- The transaction of a refresh. -/
theorem grow_exchange (rt : RefreshToken) (hk : k.Fresh t) :
    TokensGrow t (TokenService.exchange K S now rt k t) := by
  have hr := K.revokes now rt.id t
  refine hr.grow.trans (grow_mintPair rt.userId ?_ ?_)
  · rw [hr.keys.1]
    exact hk.refreshId
  · rw [hr.keys.2]
    exact hk.refreshToken

/-- After the transaction the refresh token is revoked. -/
theorem hasRevoked_exchange {r : RefreshToken} (hr : r ∈ t.refreshTokens) (hid : r.id = rt.id) :
    HasRevoked (TokenService.exchange K S now rt k t) r.token := by
  obtain ⟨r', hr', h⟩ := (K.revokes now rt.id t).marks hr hid
  exact ⟨r', List.mem_append_left _ hr', h⟩

/-- A login revokes no row. -/
theorem RowRevoked.of_mintPair {userId id : Id}
    (h : RowRevoked (TokenService.mintPair S now userId k t) id) : RowRevoked t id := by
  obtain ⟨r, hr, hid, hn⟩ := h
  rcases List.mem_append.mp hr with hr | hr
  · exact ⟨r, hr, hid, hn⟩
  · obtain rfl := List.mem_singleton.mp hr
    exact absurd rfl hn

/-- A transaction revokes no row but its own. -/
theorem RowRevoked.of_exchange {id : Id}
    (h : RowRevoked (TokenService.exchange K S now rt k t) id) : RowRevoked t id ∨ rt.id = id := by
  obtain ⟨r, hr, rfl, hn⟩ := RowRevoked.of_mintPair h
  obtain ⟨f, hf, hfr⟩ := (K.revokes now rt.id t).refresh
  rw [hf] at hr
  obtain ⟨r₀, hr₀, rfl⟩ := List.mem_map.mp hr
  rw [(hfr r₀).1]
  by_cases hid : r₀.id = rt.id
  · exact .inr hid.symm
  · refine .inl ⟨r₀, hr₀, rfl, fun h₀ => hn ?_⟩
    exact (hfr r₀).2.2.2.2.mpr ⟨h₀, hid⟩

/-- The rows of a token and of an id, with unique keys. -/
theorem HasRevoked.row (h : HasRevoked t token) (ht : TokensOk t) {r : RefreshToken}
    (hr : r ∈ t.refreshTokens) (htok : r.token = token) : RowRevoked t r.id := by
  obtain ⟨r', hr', htok', hn⟩ := h
  obtain rfl := Table.eq_of_key ht.tokens hr' hr (htok'.trans htok.symm)
  exact ⟨r', hr', rfl, hn⟩

end Rows

/-! ## Exchanges -/

/-- What the record of the exchanges satisfies: every token is exchanged at most once, and none that
was revoked or too old. -/
structure ExchangesOk (S : AuthSettings) (s : TokenStore) : Prop where
  once : (s.exchanges.map (·.token)).Nodup
  live : ∀ e ∈ s.exchanges, e.revoked = false
  young : ∀ e ∈ s.exchanges, e.age ≤ S.refreshTokenExpireSeconds

/-! ## Leases -/

/-- The token and the lease of a request that is past the lock and may still exchange. -/
def RefreshThread.lease : RefreshThread → Option (String × LockToken)
  | .entered token lease => some (token, lease)
  | .fetched rt lease | .checked rt lease => some (rt.token, lease)
  | _ => none

/-- The row that the request has read, if it has, is stored under its keys. -/
def RefreshThread.Known (t : TokenTables) (u : RefreshThread) : Prop :=
  ∀ rt ∈ u.row, ∃ r ∈ t.refreshTokens, r.id = rt.id ∧ r.token = rt.token

/-- While the entry of its lock is the request's own: the entry ends at most the TTL from now, before
the token that was read has passed its age; and a row that was read unrevoked is not revoked. -/
def RefreshThread.Holds (S : AuthSettings) (lockName : String → String) (s : TokenStore)
    (u : RefreshThread) : Prop :=
  ∀ token lease until_, u.lease = some (token, lease) →
    s.locks (lockName token) = some (lease, until_) →
    until_ ≤ s.clock + S.refreshTokenLockTimeoutSeconds ∧
      ∀ rt ∈ u.row, until_ - rt.created ≤ S.refreshTokenExpireSeconds ∧
        (rt.revoked = none → ¬ RowRevoked s.tables rt.id)

/-- What a request has checked. -/
def RefreshThread.Checked : RefreshThread → Prop
  | checked rt _ => rt.revoked = none
  | _ => True

section Exchanges

variable {K : OAuthToolkit} {S : AuthSettings} {lockName : String → String}
  {c : Conf TokenStore RefreshThread} {s s' : TokenStore} {t t' : RefreshThread}

/-- The tables and the record: an exchanged token is revoked. -/
structure ExchangesInv (S : AuthSettings) (s : TokenStore) : Prop where
  tables : TokensOk s.tables
  marked : ∀ e ∈ s.exchanges, HasRevoked s.tables e.token
  ok : ExchangesOk S s

theorem ExchangesInv.grow (h : ExchangesInv S s) (hg : TokensGrow s.tables s'.tables)
    (he : s'.exchanges = s.exchanges) : ExchangesInv S s' :=
  ⟨hg.ok h.tables, fun e hm => (h.marked e (he ▸ hm)).grow hg, he ▸ h.ok.once, he ▸ h.ok.live,
    he ▸ h.ok.young⟩

theorem ExchangesInv.exchange (h : ExchangesInv S s) {rt r : RefreshToken} {k : MintKeys}
    (hk : k.Fresh s.tables) (hr : r ∈ s.tables.refreshTokens) (hid : r.id = rt.id)
    (htok : r.token = rt.token) (hlive : ¬ RowRevoked s.tables rt.id)
    (hage : s.clock - rt.created ≤ S.refreshTokenExpireSeconds) :
    ExchangesInv S (s.exchange K S rt k) := by
  have hfree : rt.token ∉ s.exchanges.map (·.token) := by
    intro hm
    obtain ⟨e, he, hte⟩ := List.mem_map.mp hm
    exact hlive (hid ▸ (h.marked e he).row h.tables hr (htok.trans hte.symm))
  have hany : (s.tables.refreshTokens.any fun r => r.id = rt.id ∧ r.revoked ≠ none) = false := by
    rw [List.any_eq_false]
    intro r' hr'
    rw [decide_eq_true_eq]
    exact fun hn => hlive ⟨r', hr', hn⟩
  refine ⟨(grow_exchange rt hk).ok h.tables, fun e he => ?_, ?_, fun e he => ?_, fun e he => ?_⟩
  · obtain rfl | he := List.mem_cons.mp he
    · exact htok ▸ hasRevoked_exchange hr hid
    · exact (h.marked e he).grow (grow_exchange rt hk)
  · exact List.nodup_cons.mpr ⟨hfree, h.ok.once⟩
  · obtain rfl | he := List.mem_cons.mp he
    · exact hany
    · exact h.ok.live e he
  · obtain rfl | he := List.mem_cons.mp he
    · exact hage
    · exact h.ok.young e he

/-- A lock that is not expired is the entry of its lease. -/
theorem TokenStore.entry_of_lock {name : String} {lease : LockToken}
    (h : s.lock name = some lease) : ∃ until_, s.locks name = some (lease, until_) ∧
      s.clock < until_ := by
  unfold TokenStore.lock at h
  split at h
  · split_ifs at h with hc
    obtain rfl := Option.some.inj h
    exact ⟨_, by assumption, hc⟩
  · cases h

/-- The tables of a step grow. -/
theorem RefreshThread.Step.grow (h : RefreshThread.Step K S lockName t s s' t') :
    TokensGrow s.tables s'.tables := by
  cases h with
  | exchange k hk => exact grow_exchange _ hk
  | login userId k hk => exact grow_mintPair userId hk.refreshId hk.refreshToken
  | logout tokenValue => exact grow_revoke tokenValue
  | _ => exact .refl _

/-- **The lease of a request** is new, and of its own lock, or it is the one before. -/
theorem RefreshThread.Step.lease (h : RefreshThread.Step K S lockName t s s' t') :
    s.issued ⊆ s'.issued ∧ ∀ x ∈ t'.lease, (x.2 ∉ s.issued ∧ x.2 ∈ s'.issued) ∨ t.lease = some x := by
  cases h with
  | lock lease hl hnew =>
    refine ⟨List.subset_cons_self _ _, ?_⟩
    rintro x hx
    obtain rfl := Option.some.inj hx
    exact .inl ⟨hnew, List.mem_cons_self⟩
  | get | check => exact ⟨fun _ h => h, fun x hx => .inr hx⟩
  | _ => exact ⟨fun _ h => h, fun x hx => by cases hx⟩

/-- **The locks and the clock after a step**: an entry is one from before, or of a new lease; and the
clock does not go back. -/
theorem RefreshThread.Step.locks (h : RefreshThread.Step K S lockName t s s' t') {name : String}
    {lease : LockToken} {until_ : Time} (he : s'.locks name = some (lease, until_)) :
    s.clock ≤ s'.clock ∧ (s.locks name = some (lease, until_) ∨ lease ∉ s.issued) := by
  cases h with
  | @lock _ token lease' hl hnew =>
    refine ⟨le_rfl, ?_⟩
    dsimp only at he
    by_cases hn : name = lockName token
    · rw [hn, Function.update_self] at he
      obtain ⟨rfl, -⟩ := Prod.mk.inj (Option.some.inj he)
      exact .inr hnew
    · rw [Function.update_of_ne hn] at he
      exact .inl he
  | @delete _ token =>
    refine ⟨le_rfl, .inl ?_⟩
    dsimp only at he
    by_cases hn : name = lockName token
    · rw [hn, Function.update_self] at he
      cases he
    · rwa [Function.update_of_ne hn] at he
  | tick now hn => exact ⟨hn, .inl he⟩
  | _ => exact ⟨le_rfl, .inl he⟩

/-- The requests' leases were issued, and no two requests have the same; what each holds. -/
abbrev Excluded (S : AuthSettings) (lockName : String → String) :
    Conf TokenStore RefreshThread → Prop :=
  ThreadInv (ExchangesInv S)
    (fun s u => u.Checked ∧ u.Known s.tables ∧ u.Holds S lockName s ∧
      ∀ x ∈ u.lease, x.2 ∈ s.issued)
    fun _ u u' => ∀ x ∈ u.lease, ∀ x' ∈ u'.lease, x.2 ≠ x'.2

/-- One step of a request keeps what it knows. -/
theorem RefreshThread.Step.known (h : RefreshThread.Step K S lockName t s s' t')
    (hk : t.Known s.tables) : t'.Known s'.tables := by
  cases h with
  | get hr =>
    intro rt hrt
    obtain rfl := Option.some.inj hrt
    exact ⟨_, hr, rfl, rfl⟩
  | check => exact hk
  | _ => exact fun rt hrt => by cases hrt

/-- One step of a request keeps what it holds. -/
theorem RefreshThread.Step.holds {p : ℕ}
    (hs : RefreshThread.Step K S lockName (c.thread p) c.shared s' t')
    (hc : RefreshInTime S lockName c p s' t') (ht : TokensOk c.shared.tables)
    (hh : (c.thread p).Holds S lockName c.shared) : t'.Holds S lockName s' := by
  have hyoung := hc.young
  generalize c.thread p = t₀ at hs hh hyoung
  generalize c.shared = s₀ at hs ht hh hyoung
  intro token lease until_ hl he
  cases hs with
  | lock lease' =>
    obtain ⟨rfl, rfl⟩ := Prod.mk.inj (Option.some.inj hl)
    dsimp only at he
    rw [Function.update_self] at he
    obtain ⟨-, rfl⟩ := Prod.mk.inj (Option.some.inj he)
    exact ⟨le_rfl, fun rt hrt => by cases hrt⟩
  | @get _ rt lease' hr =>
    obtain ⟨rfl, rfl⟩ := Prod.mk.inj (Option.some.inj hl)
    obtain ⟨hle, -⟩ := hh _ _ _ rfl he
    refine ⟨hle, fun rt' hrt => ?_⟩
    obtain rfl := Option.some.inj hrt
    have hy := hyoung _ _ rfl rfl
    refine ⟨by linarith, ?_⟩
    rintro hrev ⟨r, hr', hid, hn⟩
    obtain rfl := Table.eq_of_key ht.ids hr' hr hid
    exact hn hrev
  | check => exact hh token lease until_ hl he
  | _ => cases hl

/-- **Mutual exclusion.** A step of another thread leaves a request that holds its lock what it has:
who exchanges holds the token's lock, so it is another token, and no logout revokes the row. -/
theorem RefreshThread.Step.holds_other {p q : ℕ}
    (hs : RefreshThread.Step K S lockName (c.thread p) c.shared s' t')
    (hc : RefreshInTime S lockName c p s' t') (hi : Excluded S lockName c) (hqp : q ≠ p) :
    (c.thread q).Holds S lockName s' := by
  intro token lease until_ hl he
  have hissued : lease ∈ c.shared.issued := (hi.each q).2.2.2 _ hl
  obtain ⟨hclock, hentry⟩ := hs.locks he
  have hold := hentry.resolve_right fun hno => hno hissued
  obtain ⟨hle, hrow⟩ := (hi.each q).2.2.1 token lease until_ hl hold
  refine ⟨by linarith, fun rt hrt => ⟨(hrow rt hrt).1, fun hrev hr => (hrow rt hrt).2 hrev ?_⟩⟩
  have htoken : rt.token = token := by
    cases hq : c.thread q with
    | fetched rt' lease' | checked rt' lease' =>
      rw [hq] at hl hrt
      obtain rfl := Option.some.inj hrt
      exact (Prod.mk.inj (Option.some.inj hl)).1
    | _ =>
      rw [hq] at hrt
      cases hrt
  have hlogout := hc.logout
  have hlock := hc.lock
  have hp := hi.each p
  have hpair := hi.pair p q (Ne.symm hqp)
  generalize c.thread p = t₀ at hs hlogout hlock hp hpair
  cases hs with
  | @exchange _ rt' lease' k hk =>
    rcases RowRevoked.of_exchange hr with hold' | hid
    · exact hold'
    · -- both have read the row of one token, and both hold its lock
      obtain ⟨r, hr₁, hid₁, htok₁⟩ := hp.2.1 rt' rfl
      obtain ⟨r', hr₂, hid₂, htok₂⟩ := (hi.each q).2.1 rt hrt
      obtain rfl := Table.eq_of_key hi.shared.tables.ids hr₁ hr₂ (hid₁.trans (hid.trans hid₂.symm))
      obtain ⟨until', he', -⟩ := TokenStore.entry_of_lock (hlock rt' lease' rfl rfl)
      rw [htok₁.symm.trans htok₂, htoken, hold] at he'
      obtain ⟨rfl, -⟩ := Prod.mk.inj (Option.some.inj he')
      exact absurd rfl (hpair (rt'.token, lease) rfl (token, lease) hl)
  | login => exact RowRevoked.of_mintPair hr
  | logout => exact hlogout rfl q rt hrt hr
  | _ => exact hr

/-- One step of a thread that meets the conditions. -/
theorem RefreshThread.Step.inv {p : ℕ}
    (hs : RefreshThread.Step K S lockName (c.thread p) c.shared s' t')
    (hc : RefreshInTime S lockName c p s' t') (hi : Excluded S lockName c) :
    ExchangesInv S s' ∧ t'.Checked := by
  have hlock := hc.lock
  have hp := hi.each p
  have hshared := hi.shared
  have hg := hs.grow
  generalize c.thread p = t₀ at hs hlock hp
  generalize c.shared = s₀ at hs hlock hp hshared hg
  cases hs with
  | check hr => exact ⟨hshared, hr⟩
  | @exchange _ rt lease k hk =>
    obtain ⟨hrev, hknown, hholds, -⟩ := hp
    obtain ⟨r, hr, hid, htok⟩ := hknown rt rfl
    obtain ⟨until_, he, hnow⟩ := TokenStore.entry_of_lock (hlock rt lease rfl rfl)
    obtain ⟨hage, hlive⟩ := (hholds _ _ _ rfl he).2 rt rfl
    exact ⟨hshared.exchange hk hr hid htok (hlive hrev) (by linarith), trivial⟩
  | _ => exact ⟨hshared.grow hg rfl, trivial⟩

theorem preserves_excluded : Preserves (RefreshThread.Step K S lockName) (RefreshInTime S lockName)
    (ExchangesInv S)
    (fun s u => u.Checked ∧ u.Known s.tables ∧ u.Holds S lockName s ∧ ∀ x ∈ u.lease, x.2 ∈ s.issued)
    (fun _ u u' => ∀ x ∈ u.lease, ∀ x' ∈ u'.lease, x.2 ≠ x'.2) where
  own {c p s' t'} hi hs hc := by
    obtain ⟨hinv, hchecked⟩ := hs.inv hc hi
    obtain ⟨-, hknown, hholds, hissued⟩ := hi.each p
    obtain ⟨hsub, hlease⟩ := hs.lease
    exact ⟨hinv, hchecked, hs.known hknown, hs.holds hc hi.shared.tables hholds,
      fun x hx => (hlease x hx).elim And.right fun hold => hsub (hissued x hold)⟩
  other {c p q s' t'} hi hs hc hqp := by
    obtain ⟨hchecked, hknown, -, hissued⟩ := hi.each q
    obtain ⟨hsub, hlease⟩ := hs.lease
    have hne : ∀ x ∈ t'.lease, ∀ x' ∈ (c.thread q).lease, x.2 ≠ x'.2 := by
      intro x hx x' hx' he
      rcases hlease x hx with ⟨hnew, -⟩ | hold
      · exact hnew (he ▸ hissued x' hx')
      · exact hi.pair p q (Ne.symm hqp) x hold x' hx' he
    refine ⟨⟨hchecked, fun rt hrt => ?_, hs.holds_other hc hi hqp, fun x hx => hsub (hissued x hx)⟩,
      hne, fun x hx x' hx' he => hne x' hx' x hx he.symm⟩
    obtain ⟨r, hr, hid, htok⟩ := hknown rt hrt
    obtain ⟨r', hr', hid', htok', -⟩ := hs.grow.rows r hr
    exact ⟨r', hr', hid'.trans hid, htok'.trans htok⟩
  others hi _ _ _ _ hqr := hi.pair _ _ hqr

/-- **A refresh token is used once, unrevoked and young**, in every run of refreshes, logins and
logouts in which a transaction begins while its request holds the token's lock, no logout revokes a
row that a request may still exchange, and no row is read that passes its age while a lock lasts. -/
theorem refresh_once
    (h : ReachIn (RefreshThread.Step K S lockName) RefreshInit (RefreshInTime S lockName) c) :
    ExchangesOk S c.shared := by
  refine (h.threads (fun c hc => ⟨?_, fun p => ?_, fun p q _ => ?_⟩) preserves_excluded).shared.ok
  · exact ⟨hc.1, by simp [hc.2.1], by simp [hc.2.1], by simp [hc.2.1], by simp [hc.2.1]⟩
  · have hidle : (c.thread p).Checked ∧ (c.thread p).row = none ∧ (c.thread p).lease = none := by
      obtain hp | hp := hc.2.2 p <;> rw [hp] <;> exact ⟨trivial, rfl, rfl⟩
    obtain ⟨hchecked, hrow, hlease⟩ := hidle
    exact ⟨hchecked, by simp [RefreshThread.Known, hrow], by simp [RefreshThread.Holds, hlease],
      by simp [hlease]⟩
  · obtain hp | hp := hc.2.2 p <;> rw [hp] <;> simp [RefreshThread.lease]

end Exchanges

/-! ## Overtaken requests -/

/-- The toolkit on the sample tables. -/
def sampleToolkit : OAuthToolkit where
  revoke now pk t :=
    { accessTokens := t.accessTokens.filter fun a => decide (∀ r ∈ t.refreshTokens, r.id = pk →
        r.revoked = none → r.accessTokenId ≠ some a.id)
      refreshTokens := Table.update (fun r => r.id = pk ∧ r.revoked = none)
        (fun r => { r with accessTokenId := none, revoked := some now }) t.refreshTokens }
  revokes now pk t := by
    refine ⟨⟨_, rfl, fun r => ?_⟩, fun a => by simp only [List.mem_filter, decide_eq_true_eq]⟩
    by_cases hr : r.id = pk ∧ r.revoked = none
    · simp [hr]
    · simp only [hr, decide_false, Bool.false_eq_true, if_false, true_and]
      exact ⟨fun h => ⟨h, fun hid => hr ⟨hid, h⟩⟩, And.left⟩

/-- A refresh token created at 0. -/
def sampleRefresh : RefreshToken :=
  { id := 1, token := "r1", userId := 7, accessTokenId := some 1, created := 0 }

/-- A login that has not been refreshed; thread 2 is the clock. -/
def refreshStart : Conf TokenStore RefreshThread :=
  ⟨{ tables := ⟨[⟨1, "a1", 7, 3600⟩], [sampleRefresh]⟩ }, fun p => if p = 2 then .clock else .idle⟩

theorem init_refreshStart : RefreshInit refreshStart := by
  refine ⟨⟨by decide, by decide⟩, rfl, fun p => ?_⟩
  by_cases hp : p = 2
  · exact .inr (by simp [refreshStart, hp])
  · exact .inl (by simp [refreshStart, hp])

/-- The store with a token's lock under a lease. -/
def TokenStore.locked (s : TokenStore) (token : String) (lease : LockToken) : TokenStore :=
  { s with
    locks := Function.update s.locks token (some (lease, s.clock + 30))
    issued := lease :: s.issued }

/-- A request takes a lock. -/
theorem step_locked (s : TokenStore) (token : String) (lease : LockToken)
    (hl : s.lock token = none) (hnew : lease ∉ s.issued) :
    RefreshThread.Step sampleToolkit {} id .idle s (s.locked token lease) (.entered token lease) :=
  .lock lease hl hnew

/-- A request finds the lock taken. -/
theorem step_conflict (s : TokenStore) (token : String) (hl : s.lock token ≠ none) :
    RefreshThread.Step sampleToolkit {} id .idle s s .idle :=
  .conflict hl

/-- A request that comes past the check. -/
theorem reach_checked {c : Conf TokenStore RefreshThread}
    (h : Reach (RefreshThread.Step sampleToolkit {} id) RefreshInit c) (p : ℕ)
    (lease : LockToken) (hp : c.thread p = .idle) (hl : c.shared.lock "r1" = none)
    (hnew : lease ∉ c.shared.issued) (hr : sampleRefresh ∈ c.shared.tables.refreshTokens) :
    Reach (RefreshThread.Step sampleToolkit {} id) RefreshInit
      (c.set p (c.shared.locked "r1" lease) (.checked sampleRefresh lease)) := by
  have h1 := h.next p (step_locked c.shared "r1" lease hl hnew) hp rfl
  have hget : RefreshThread.Step sampleToolkit {} id (.entered "r1" lease)
      (c.shared.locked "r1" lease) (c.shared.locked "r1" lease) (.fetched sampleRefresh lease) :=
    .get (show sampleRefresh ∈ (c.shared.locked "r1" lease).tables.refreshTokens from hr)
  have h2 := h1.again hget
  exact h2.again (.check rfl)

section

variable {c : Conf TokenStore RefreshThread} {p : ℕ} {s : TokenStore} {t : RefreshThread}
  {rt : RefreshToken} {lease : LockToken}

/-- A step that writes no table, reads no row and is no exchange. -/
theorem inTime_of_tables (ht : s.tables = c.shared.tables)
    (hread : ∀ rt lease, t ≠ .fetched rt lease)
    (hpair : ∀ token lease, t ≠ .leaving token lease .pair) : RefreshInTime {} id c p s t :=
  ⟨fun _ _ _ he => absurd he (hpair _ _), fun _ _ _ _ hr => ht ▸ hr,
    fun rt lease _ he => absurd he (hread rt lease)⟩

/-- The read of a young row. -/
theorem inTime_get (hp : c.thread p ≠ .idle)
    (hy : c.shared.clock + 30 - rt.created ≤ 14 * 86400) :
    RefreshInTime {} id c p s (.fetched rt lease) := by
  refine ⟨fun _ _ _ he => (by cases he), fun he => absurd he hp, fun rt' lease' _ he => ?_⟩
  obtain ⟨rfl, -⟩ := RefreshThread.fetched.inj he
  exact hy

/-- An exchange under the lock. -/
theorem inTime_exchange (hp : c.thread p = .checked rt lease)
    (hl : c.shared.lock rt.token = some lease) :
    RefreshInTime {} id c p s (.leaving rt.token lease .pair) := by
  refine ⟨fun rt' lease' he _ => ?_, fun he => (by simp [hp] at he), fun _ _ _ he => (by cases he)⟩
  obtain ⟨rfl, rfl⟩ := RefreshThread.checked.inj (hp.symm.trans he)
  exact hl

end

/-- The refresh token of the sample exchange at 5. -/
def sampleRotated : RefreshToken :=
  { id := 2, token := "r2", userId := 7, accessTokenId := some 2, created := 5 }

/-- **Two requests interleaved.** While request 0 works on the token under its lock, request 1 is
turned away; later it comes with the token again and finds it revoked, and then with the new one,
which it exchanges. -/
theorem refresh_once_sample : ∃ c : Conf TokenStore RefreshThread,
    ReachIn (RefreshThread.Step sampleToolkit {} id) RefreshInit (RefreshInTime {} id) c ∧
    c.shared.exchanges.map (·.token) = ["r2", "r1"] ∧ ExchangesOk {} c.shared := by
  have h0 : ReachIn (RefreshThread.Step sampleToolkit {} id) RefreshInit (RefreshInTime {} id)
      refreshStart := .init init_refreshStart
  -- request 0 comes past the check
  have h1 := h0.next 0 (step_locked _ "r1" 1 rfl (by decide)) rfl rfl
    (inTime_of_tables rfl (by simp) (by simp))
  have h2 := h1.again (.get (show sampleRefresh ∈ _ from List.mem_cons_self))
    (inTime_get (by simp) (by decide))
  have h3 := h2.again (.check rfl) (inTime_of_tables rfl (by simp) (by simp))
  -- request 1 is turned away
  have h4 := h3.next 2 (.tick 5 (by decide)) rfl rfl
    (inTime_of_tables rfl (by simp) (by simp))
  have h5 := h4.next 1 (step_conflict _ "r1" (by decide)) rfl rfl
    (inTime_of_tables rfl (by simp) (by simp))
  -- request 0 exchanges and releases
  have h6 := h5.next 0 (.exchange ⟨2, "a2", 2, "r2"⟩ ⟨by decide, by decide, by decide, by decide⟩)
    rfl rfl (inTime_exchange rfl (by decide))
  have h7 := h6.again (.release (by decide)) (inTime_of_tables rfl (by simp) (by simp))
  have h8 := h7.again .delete (inTime_of_tables rfl (by simp) (by simp))
  -- request 1 finds the token revoked
  have h9 := h8.next 1 (step_locked _ "r1" 2 (by decide) (by decide)) rfl rfl
    (inTime_of_tables rfl (by simp) (by simp))
  have h10 := h9.again (.get (show { sampleRefresh with accessTokenId := none, revoked := some 5 } ∈ _
    from List.mem_cons_self)) (inTime_get (by simp) (by decide))
  have h11 := h10.again (.revoked (by decide)) (inTime_of_tables rfl (by simp) (by simp))
  have h12 := h11.again (.release (by decide)) (inTime_of_tables rfl (by simp) (by simp))
  have h13 := h12.again .delete (inTime_of_tables rfl (by simp) (by simp))
  -- and exchanges the new one
  have h14 := h13.again (step_locked _ "r2" 3 (by decide) (by decide))
    (inTime_of_tables rfl (by simp) (by simp))
  have h15 := h14.again (.get (show sampleRotated ∈ _ from
    List.mem_cons_of_mem _ List.mem_cons_self)) (inTime_get (by simp) (by decide))
  have h16 := h15.again (.check rfl) (inTime_of_tables rfl (by simp) (by simp))
  have h17 := h16.again (.exchange ⟨3, "a3", 3, "r3"⟩
    ⟨by decide, by decide, by decide, by decide⟩) (inTime_exchange rfl (by decide))
  exact ⟨_, h17, rfl, refresh_once h17⟩

/-- **Overtaken requests.** A request that outlives its lock exchanges a token again; one that a
logout overtakes exchanges a revoked token; and a token past its age is exchanged. -/
theorem refresh_overtaken :
    (∃ c, Reach (RefreshThread.Step sampleToolkit {} id) RefreshInit c ∧
      c.shared.exchanges.map (·.token) = ["r1", "r1"]) ∧
    (∃ c, Reach (RefreshThread.Step sampleToolkit {} id) RefreshInit c ∧
      c.shared.exchanges.map (fun e => (e.token, e.revoked)) = [("r1", true)]) ∧
    ∃ c, Reach (RefreshThread.Step sampleToolkit {} id) RefreshInit c ∧
      c.shared.exchanges.map (fun e => (e.token, e.age)) = [("r1", 14 * 86400 + 1)] := by
  have h0 : Reach (RefreshThread.Step sampleToolkit {} id) RefreshInit refreshStart :=
    .init init_refreshStart
  have h1 := reach_checked h0 0 1 rfl rfl (by decide) List.mem_cons_self
  refine ⟨?_, ?_, ?_⟩
  · have h2 := h1.next 2 (.tick 31 (by decide)) rfl rfl
    have h3 := reach_checked h2 1 2 rfl (by decide) (by decide) List.mem_cons_self
    have h4 := h3.again (.exchange ⟨2, "a2", 2, "r2"⟩
      ⟨by decide, by decide, by decide, by decide⟩)
    have h5 := h4.next 0 (.exchange ⟨3, "a3", 3, "r3"⟩
      ⟨by decide, by decide, by decide, by decide⟩) rfl rfl
    exact ⟨_, h5, rfl⟩
  · have h2 := h1.next 1 (.logout "a1") rfl rfl
    have h3 := h2.next 0 (.exchange ⟨2, "a2", 2, "r2"⟩
      ⟨by decide, by decide, by decide, by decide⟩) rfl rfl
    exact ⟨_, h3, by decide⟩
  · have h2 := h0.next 2 (.tick (14 * 86400 + 1) (by decide)) rfl rfl
    have h3 := reach_checked h2 0 1 rfl rfl (by decide) List.mem_cons_self
    have h4 := h3.again (.exchange ⟨2, "a2", 2, "r2"⟩
      ⟨by decide, by decide, by decide, by decide⟩)
    exact ⟨_, h4, rfl⟩

end OpenMagpie
