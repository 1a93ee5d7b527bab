import OpenMagpie.Auth.CliTokens
import OpenMagpie.Lib.Fresh

/-!
# Which credential comes from which

Sign-ups and logins issue session tokens, refreshes exchange them, a device session that is completed
hands a pair to its client, and a session mints personal access tokens. Any number of requests.

* `AuthStore`, `AuthThread.Step`: the tables and the cache, and the requests statement by statement.
* `Issue`: an issued credential and its grounds, for the record; `Descends`: the credentials that come
  from one.
* `CredentialsOk`: every row has its issue, and every issue its grounds; **`credentials_descend`**: in
  every run a credential is its ancestors' user's, and what comes from a personal access token comes
  through a device session that was completed with it.
* **`revoked_refused`**: a revoked personal access token authenticates no request again.
* **`pat_outlives_revocation`**: what came from it does, at any later time.
-/

set_option autoImplicit false

namespace OpenMagpie

open Interleave

/-! ## The system -/

/-- An issued credential, by the ids of its rows. -/
inductive Credential
  | session (accessId refreshId : Id)
  | pat (id : Id)
  deriving DecidableEq

/-- On what a credential is issued. -/
inductive Grounds
  | password
  | shell
  | refresh (refreshId : Id)
  | mint (authority : Authority)
  | device (authority : Authority)
  deriving DecidableEq

/-- An issued credential. -/
structure Issue where
  credential : Credential
  user : Id
  grounds : Grounds
  deriving DecidableEq

/-- The tables, the cache bags of the device sessions and the clock; the pairs that were minted, by
their serial numbers; and, for the record, what was issued. -/
structure AuthStore where
  clock : Time := 0
  users : List Id := []
  tables : TokenTables := {}
  cliTokens : List CliToken := []
  bags : String → Option DeviceSessionState := fun _ => none
  pairs : List MintKeys := []
  issued : List Issue := []

/-- `mint_pair`, on its grounds. -/
def AuthStore.mintPair (S : AuthSettings) (user : Id) (k : MintKeys) (grounds : Grounds) (s : AuthStore) :
    AuthStore :=
  { s with
    tables := TokenService.mintPair S s.clock user k s.tables
    pairs := s.pairs ++ [k]
    issued := ⟨.session k.accessId k.refreshId, user, grounds⟩ :: s.issued }

/-- The transaction of a refresh. -/
def AuthStore.exchangePair (K : OAuthToolkit) (S : AuthSettings) (rt : RefreshToken) (k : MintKeys)
    (s : AuthStore) : AuthStore :=
  { s with
    tables := TokenService.exchange K S s.clock rt k s.tables
    pairs := s.pairs ++ [k]
    issued := ⟨.session k.accessId k.refreshId, rt.userId, .refresh rt.id⟩ :: s.issued }

/-- The two credentials share an id. -/
def Credential.Clash : Credential → Credential → Prop
  | .session a r, .session a' r' => a = a' ∨ r = r'
  | .pat id, .pat id' => id = id'
  | _, _ => False

/-- A credential with new ids. -/
def AuthStore.IsNew (s : AuthStore) (c : Credential) : Prop := ∀ i ∈ s.issued, ¬ c.Clash i.credential

/-- Where a request stands: past the authentication; a completion that has checked the code, and that
has minted; a refresh that has checked its row; a poll that has read a completed bag; answered. -/
inductive AuthThread
  | idle
  | identified (request : AuthRequest) (who : Identity)
  | completing (who : Identity) (session : String) (state : DeviceSessionState)
  | storing (session : String) (state : DeviceSessionState) (tokens : TokenPair)
  | refreshing (rt : RefreshToken)
  | taking (session : String) (state : DeviceSessionState)
  | answered (state : DeviceSessionState)
  | clock

/-- The steps of the requests. -/
inductive AuthThread.Step (X : AuthConfig) (K : OAuthToolkit) (S : AuthSettings) :
    ThreadRel AuthStore AuthThread
  -- sign-up, login, and the server shell
  | signUp {s : AuthStore} {user : Id} (k : MintKeys) (hu : user ∉ s.users) (hk : k.Fresh s.tables)
      (hn : s.IsNew (.session k.accessId k.refreshId)) :
      Step X K S .idle s (({ s with users := s.users ++ [user] } : AuthStore).mintPair S user k .password)
        .idle
  | login {s : AuthStore} {user : Id} (k : MintKeys) (hu : user ∈ s.users) (hk : k.Fresh s.tables)
      (hn : s.IsNew (.session k.accessId k.refreshId)) :
      Step X K S .idle s (s.mintPair S user k .password) .idle
  | issueCliToken {s : AuthStore} {user id : Id} {secret name raw : String} {days : Option ℤ}
      {tokens : List CliToken} (hu : user ∈ s.users) (hn : s.IsNew (.pat id))
      (hm : CliTokenService.mint X.sha256 s.clock id secret user name days s.cliTokens =
        .ok (tokens, raw)) (hh : X.sha256 raw ∉ s.cliTokens.map (·.tokenHash)) :
      Step X K S .idle s
        { s with cliTokens := tokens, issued := ⟨.pat id, user, .shell⟩ :: s.issued } .idle
  -- requests that authenticate
  | authenticate {s : AuthStore} {who : Identity} (request : AuthRequest)
      (h : authenticate X s.users s.clock s.tables s.cliTokens request = .ok (some who)) :
      Step X K S .idle s s (.identified request who)
  | touch {s : AuthStore} {request : AuthRequest} {who : Identity} {token : CliToken}
      (ht : token ∈ s.cliTokens) (hw : who.authority = .pat token.id) :
      Step X K S (.identified request who) s
        { s with cliTokens := CliTokenService.touch s.clock token s.cliTokens }
        (.identified request who)
  | mint {s : AuthStore} {request : AuthRequest} {user accessId id : Id} {secret name raw : String}
      {days : Option ℤ} {tokens : List CliToken} (hn : s.IsNew (.pat id))
      (hm : CliTokenService.mint X.sha256 s.clock id secret user name days s.cliTokens =
        .ok (tokens, raw)) (hh : X.sha256 raw ∉ s.cliTokens.map (·.tokenHash)) :
      Step X K S (.identified request ⟨user, .session accessId⟩) s
        { s with
          cliTokens := tokens
          issued := ⟨.pat id, user, .mint (.session accessId)⟩ :: s.issued } .idle
  | revoke {s : AuthStore} {request : AuthRequest} {who : Identity} (tokenId : Id) :
      Step X K S (.identified request who) s
        { s with cliTokens := (CliTokenService.revoke s.clock who.user tokenId s.cliTokens).1 } .idle
  -- a device session
  | create {s : AuthStore} {session userCode deviceSecret : String} (hb : s.bags session = none) :
      Step X K S .idle s
        { s with
          bags := Function.update s.bags session
            (some (DeviceSessionState.create X.toDeviceFns userCode deviceSecret)) } .idle
  | check {s : AuthStore} {request : AuthRequest} {who : Identity} {session code : String}
      {state : DeviceSessionState} (hb : s.bags session = some state) (hc : ¬ state.IsCompleted)
      (hm : userCodeMatches X.toDeviceFns code state) :
      Step X K S (.identified request who) s s (.completing who session state)
  | complete {s : AuthStore} {who : Identity} {session : String} {state : DeviceSessionState}
      (k : MintKeys) (hk : k.Fresh s.tables) (hn : s.IsNew (.session k.accessId k.refreshId)) :
      Step X K S (.completing who session state) s (s.mintPair S who.user k (.device who.authority))
        (.storing session state s.pairs.length)
  | put {s : AuthStore} {session : String} {state : DeviceSessionState} {tokens : TokenPair} :
      Step X K S (.storing session state tokens) s
        { s with bags := Function.update s.bags session (some (state.completeWith tokens)) } .idle
  | deny {s : AuthStore} {request : AuthRequest} {who : Identity} (session : String) :
      Step X K S (.identified request who) s
        { s with bags := Function.update s.bags session none } .idle
  | poll {s : AuthStore} {session secret : String} {state : DeviceSessionState}
      (hb : s.bags session = some state)
      (hs : deviceSecretMatches X.toDeviceFns secret state.deviceSecretHash) :
      Step X K S .idle s s (if state.IsCompleted then .taking session state else .answered state)
  | take {s : AuthStore} {session : String} {state : DeviceSessionState} :
      Step X K S (.taking session state) s
        { s with bags := Function.update s.bags session none } (.answered state)
  -- a refresh, and a logout
  | readRefresh {s : AuthStore} {rt : RefreshToken} (hr : rt ∈ s.tables.refreshTokens)
      (hv : rt.revoked = none) : Step X K S .idle s s (.refreshing rt)
  | exchange {s : AuthStore} {rt : RefreshToken} (k : MintKeys) (hk : k.Fresh s.tables)
      (hn : s.IsNew (.session k.accessId k.refreshId)) :
      Step X K S (.refreshing rt) s (s.exchangePair K S rt k) .idle
  | logout {s : AuthStore} (tokenValue : String) :
      Step X K S .idle s
        { s with tables := TokenService.revoke K s.clock tokenValue s.tables } .idle
  -- the end of a request, the TTL of a bag, and the clock
  | done {s : AuthStore} {t : AuthThread} : Step X K S t s s .idle
  | expire {s : AuthStore} (session : String) :
      Step X K S .clock s { s with bags := Function.update s.bags session none } .clock
  | tick {s : AuthStore} (now : Time) (hn : s.clock ≤ now) :
      Step X K S .clock s { s with clock := now } .clock

/-! ## Grounds -/

/-- The credential has the row of the authority. -/
def Credential.Is : Credential → Authority → Prop
  | .session a _, .session a' => a = a'
  | .pat id, .pat id' => id = id'
  | _, _ => False

/-- The issue is on the grounds of the credential. -/
def Issue.On (i : Issue) (c : Credential) : Prop :=
  match i.grounds with
  | .password | .shell => False
  | .refresh r => ∃ a, c = .session a r
  | .mint authority | .device authority => c.Is authority

/-- The issue is on a password or from the shell. -/
def Issue.IsRoot (i : Issue) : Prop := i.grounds = .password ∨ i.grounds = .shell

/-- The credentials that come from one. -/
inductive Descends (issued : List Issue) (c : Credential) : Credential → Prop
  | child {i : Issue} (hi : i ∈ issued) (h : i.On c) : Descends issued c i.credential
  | next {c' : Credential} {i : Issue} (h : Descends issued c c') (hi : i ∈ issued) (h' : i.On c') :
      Descends issued c i.credential

/-- A user has been issued a credential of the kind. -/
def Issued (issued : List Issue) (user : Id) (p : Credential → Prop) : Prop :=
  ∃ i ∈ issued, i.user = user ∧ p i.credential

/-- The issue is a root, or on the grounds of a credential of the same user; a personal access token
mints none. -/
def Issue.Founded (issued : List Issue) (i : Issue) : Prop :=
  i.IsRoot ∨ (∀ id, i.grounds ≠ .mint (.pat id)) ∧ Issued issued i.user i.On

/-- The issue is a root, or comes from one of the same user. -/
def Issue.Rooted (issued : List Issue) (i : Issue) : Prop :=
  i.IsRoot ∨ ∃ root ∈ issued, root.IsRoot ∧ root.user = i.user ∧
    Descends issued root.credential i.credential

/-- Every issue has its grounds and its root, and no two share an id. -/
structure IssuesOk (issued : List Issue) : Prop where
  founded : ∀ i ∈ issued, i.Founded issued
  rooted : ∀ i ∈ issued, i.Rooted issued
  unique : ∀ i ∈ issued, ∀ j ∈ issued, i.credential.Clash j.credential → i = j

section Issues

variable {issued issued' : List Issue} {user : Id} {p : Credential → Prop} {c c' : Credential}
  {i j : Issue} {authority : Authority}

theorem Issued.mono (h : Issued issued user p) (hs : issued ⊆ issued') : Issued issued' user p :=
  h.imp fun _ hi => ⟨hs hi.1, hi.2⟩

theorem Descends.mono (h : Descends issued c c') (hs : issued ⊆ issued') : Descends issued' c c' := by
  induction h with
  | child hi h => exact .child (hs hi) h
  | next _ hi h' ih => exact .next ih (hs hi) h'

theorem Issue.Founded.mono (h : i.Founded issued) (hs : issued ⊆ issued') : i.Founded issued' :=
  h.imp_right fun h => ⟨h.1, h.2.mono hs⟩

theorem Issue.Rooted.mono (h : i.Rooted issued) (hs : issued ⊆ issued') : i.Rooted issued' :=
  h.imp_right fun ⟨root, hr, h, hu, hd⟩ => ⟨root, hs hr, h, hu, hd.mono hs⟩

theorem Credential.Clash.symm (h : c.Clash c') : c'.Clash c := by
  cases c <;> cases c' <;> simp only [Credential.Clash] at h ⊢
  · exact h.imp Eq.symm Eq.symm
  · exact h.symm

theorem Credential.clash_self (c : Credential) : c.Clash c := by
  cases c <;> simp [Credential.Clash]

theorem Credential.Is.clash (h : c.Is authority) (h' : c'.Is authority) : c.Clash c' := by
  cases c <;> cases c' <;> cases authority <;> simp_all [Credential.Is, Credential.Clash]

/-- The grounds of an issue are one credential. -/
theorem Issue.On.clash (h : i.On c) (h' : i.On c') : c.Clash c' := by
  unfold Issue.On at h h'
  cases hg : i.grounds with
  | password | shell => simp [hg] at h
  | refresh r =>
    simp only [hg] at h h'
    obtain ⟨a, rfl⟩ := h
    obtain ⟨a', rfl⟩ := h'
    exact .inr rfl
  | mint authority | device authority =>
    simp only [hg] at h h'
    exact h.clash h'

theorem Issue.On.not_isRoot (h : i.On c) : ¬ i.IsRoot := by
  unfold Issue.On at h
  rintro (hg | hg) <;> simp [hg] at h

/-- **A new issue.** -/
theorem IssuesOk.cons (h : IssuesOk issued) (hn : ∀ j ∈ issued, ¬ i.credential.Clash j.credential)
    (hf : i.Founded issued) : IssuesOk (i :: issued) := by
  have hs : issued ⊆ i :: issued := List.subset_cons_self i issued
  refine ⟨?_, ?_, ?_⟩
  · rintro j (_ | ⟨_, hj⟩)
    · exact hf.mono hs
    · exact (h.founded j hj).mono hs
  · rintro j (_ | ⟨_, hj⟩)
    · obtain hroot | ⟨-, parent, hp, huser, hon⟩ := hf
      · exact .inl hroot
      · obtain hroot | ⟨root, hr, hroot, hruser, hd⟩ := h.rooted parent hp
        · exact .inr ⟨parent, hs hp, hroot, huser, .child List.mem_cons_self hon⟩
        · exact .inr ⟨root, hs hr, hroot, hruser.trans huser,
            .next (hd.mono hs) List.mem_cons_self hon⟩
    · exact (h.rooted j hj).mono hs
  · rintro j (_ | ⟨_, hj⟩) k (_ | ⟨_, hk⟩) hc
    · rfl
    · exact absurd hc (hn k hk)
    · exact absurd hc.symm (hn j hj)
    · exact h.unique j hj k hk hc

/-- An issue on the grounds of another's credential is for the same user, and not a mint by a personal
access token. -/
theorem IssuesOk.child (h : IssuesOk issued) (hi : i ∈ issued) (hj : j ∈ issued)
    (hon : j.On i.credential) : i.user = j.user ∧ ∀ id, j.grounds ≠ .mint (.pat id) := by
  obtain hroot | ⟨hmint, parent, hp, huser, hon'⟩ := h.founded j hj
  · exact absurd hroot hon.not_isRoot
  · obtain rfl := h.unique parent hp i hi (hon'.clash hon)
    exact ⟨huser, hmint⟩

/-- What is on the grounds of a personal access token is on a device session that it completed. -/
theorem IssuesOk.child_pat {id : Id} (h : IssuesOk issued) (hi : i ∈ issued) (hj : j ∈ issued)
    (hon : j.On i.credential) (hpat : i.credential = .pat id) : j.grounds = .device (.pat id) := by
  have hmint := (h.child hi hj hon).2
  unfold Issue.On at hon
  cases hg : j.grounds with
  | password | shell => simp [hg] at hon
  | refresh r => simp [hg, hpat] at hon
  | mint authority | device authority =>
    cases authority with
    | session a => simp [hg, hpat, Credential.Is] at hon
    | pat id' => simp_all [Credential.Is]

/-- **What comes from a credential** is its user's, and through a device session when the credential is
a personal access token. -/
theorem IssuesOk.descends (h : IssuesOk issued) (hi : i ∈ issued)
    (hd : Descends issued i.credential c) : ∃ j ∈ issued, j.credential = c ∧ i.user = j.user ∧
      ∀ id, i.credential = .pat id → ∃ k ∈ issued, k.grounds = .device (.pat id) ∧
        (k.credential = c ∨ Descends issued k.credential c) := by
  induction hd with
  | child hj hon =>
    exact ⟨_, hj, rfl, (h.child hi hj hon).1, fun id hpat =>
      ⟨_, hj, h.child_pat hi hj hon hpat, .inl rfl⟩⟩
  | next _ hk hon ih =>
    obtain ⟨j, hj, rfl, huser, hdevice⟩ := ih
    refine ⟨_, hk, rfl, huser.trans (h.child hj hk hon).1, fun id hpat => ?_⟩
    obtain ⟨d, hd, hg, heq | hdesc⟩ := hdevice id hpat
    · exact ⟨d, hd, hg, .inr (.child hk (heq ▸ hon))⟩
    · exact ⟨d, hd, hg, .inr (.next hdesc hk hon)⟩

end Issues

/-! ## Rows -/

/-- Every row has its issue, and the personal access tokens have ids of their own. -/
structure CredentialsOk (s : AuthStore) : Prop where
  issues : IssuesOk s.issued
  access : ∀ a ∈ s.tables.accessTokens, Issued s.issued a.userId (·.Is (.session a.id))
  refresh : ∀ r ∈ s.tables.refreshTokens, Issued s.issued r.userId fun c => ∃ a, c = .session a r.id
  pats : ∀ t ∈ s.cliTokens, Issued s.issued t.userId (·.Is (.pat t.id))
  ids : (s.cliTokens.map (·.id)).Nodup

/-- Rows may go, and the others keep their ids and users. -/
structure TokensKept (t t' : TokenTables) : Prop where
  access : ∀ a ∈ t'.accessTokens, a ∈ t.accessTokens
  refresh : ∀ r ∈ t'.refreshTokens, ∃ r' ∈ t.refreshTokens, r'.id = r.id ∧ r'.userId = r.userId

/-- What a request holds was issued to its user. -/
def AuthThread.Known (issued : List Issue) : AuthThread → Prop
  | .identified _ who => Issued issued who.user (·.Is who.authority)
  | .completing who _ _ => Issued issued who.user (·.Is who.authority)
  | .refreshing rt => Issued issued rt.userId fun c => ∃ a, c = .session a rt.id
  | _ => True

section Rows

variable {K : OAuthToolkit} {t t' t'' : TokenTables} {now : Time} {pk : Id}

theorem TokensKept.refl (t : TokenTables) : TokensKept t t :=
  ⟨fun _ h => h, fun r hr => ⟨r, hr, rfl, rfl⟩⟩

theorem TokensKept.trans (h : TokensKept t t') (h' : TokensKept t' t'') : TokensKept t t'' := by
  refine ⟨fun a ha => h.access a (h'.access a ha), fun r hr => ?_⟩
  obtain ⟨r', hr', hid', huser'⟩ := h'.refresh r hr
  obtain ⟨r'', hr'', hid'', huser''⟩ := h.refresh r' hr'
  exact ⟨r'', hr'', hid''.trans hid', huser''.trans huser'⟩

theorem Revokes.kept (h : Revokes pk t t') : TokensKept t t' := by
  refine ⟨fun a ha => ((h.access a).mp ha).1, fun r hr => ?_⟩
  obtain ⟨f, hf, hrows⟩ := h.refresh
  rw [hf] at hr
  obtain ⟨r', hr', rfl⟩ := List.mem_map.mp hr
  exact ⟨r', hr', (hrows r').1.symm, (hrows r').2.2.1.symm⟩

theorem kept_deleteAccess (id : Id) (t : TokenTables) : TokensKept t (t.deleteAccess id) := by
  refine ⟨fun a ha => List.mem_of_mem_filter ha, fun r hr => ?_⟩
  obtain ⟨r', hr', rfl⟩ := Table.mem_update.mp hr
  exact ⟨r', hr', by split_ifs <;> rfl, by split_ifs <;> rfl⟩

/-- A logout. -/
theorem kept_revoke (tokenValue : String) : TokensKept t (TokenService.revoke K now tokenValue t) := by
  unfold TokenService.revoke
  split
  · exact .refl t
  · split
    · exact kept_deleteAccess _ t
    · split_ifs
      · exact (K.revokes now _ t).kept.trans (kept_deleteAccess _ _)
      · exact kept_deleteAccess _ t

end Rows

section Invariant

variable {X : AuthConfig} {K : OAuthToolkit} {S : AuthSettings} {s s' : AuthStore} {t t' : AuthThread}
  {c : Conf AuthStore AuthThread} {issued issued' : List Issue} {user : Id} {k : MintKeys}

theorem AuthThread.Known.mono (h : t.Known issued) (hs : issued ⊆ issued') : t.Known issued' := by
  cases t with
  | identified request who => exact Issued.mono (p := (·.Is who.authority)) h hs
  | completing who session state => exact Issued.mono (p := (·.Is who.authority)) h hs
  | refreshing rt => exact Issued.mono (p := fun c => ∃ a, c = .session a rt.id) h hs
  | _ => trivial

/-- An identity that a request is authenticated with was issued. -/
theorem CredentialsOk.authenticated {users : List Id} {now : Time} {request : AuthRequest} {who : Identity}
    (h : CredentialsOk s)
    (hw : authenticate X users now s.tables s.cliTokens request = .ok (some who)) :
    Issued s.issued who.user (·.Is who.authority) := by
  obtain ⟨hrow, -⟩ | ⟨hrow, -⟩ := authenticatedBy hw
  · exact h.pats _ hrow
  · exact h.access _ hrow

/-- A step that drops rows of the two tables. -/
theorem CredentialsOk.tables (h : CredentialsOk s) {tables : TokenTables} (hk : TokensKept s.tables tables) :
    CredentialsOk { s with tables := tables } := by
  refine ⟨h.issues, fun a ha => h.access a (hk.access a ha), fun r hr => ?_, h.pats, h.ids⟩
  obtain ⟨r', hr', hid, huser⟩ := hk.refresh r hr
  have hissued := h.refresh r' hr'
  rwa [hid, huser] at hissued

/-- A step that rewrites rows of the personal access tokens. -/
theorem CredentialsOk.update (h : CredentialsOk s) {p : CliToken → Bool} {f : CliToken → CliToken}
    (hid : ∀ t, (f t).id = t.id) (huser : ∀ t, (f t).userId = t.userId) :
    CredentialsOk { s with cliTokens := Table.update p f s.cliTokens } := by
  refine ⟨h.issues, h.access, h.refresh, Table.forall_update (fun t ht _ => ?_) fun t ht _ => h.pats t ht,
    ?_⟩
  · rw [hid, huser]
    exact h.pats t ht
  · rw [Table.map_update (·.id) fun t _ => hid t]
    exact h.ids

/-- **A new pair.** -/
theorem CredentialsOk.mintPair (h : CredentialsOk s) {grounds : Grounds}
    (hn : s.IsNew (.session k.accessId k.refreshId))
    (hf : Issue.Founded s.issued ⟨.session k.accessId k.refreshId, user, grounds⟩) :
    CredentialsOk (s.mintPair S user k grounds) := by
  have hs : s.issued ⊆ (s.mintPair S user k grounds).issued := List.subset_cons_self _ _
  refine ⟨h.issues.cons hn hf, fun a ha => ?_, fun r hr => ?_, fun t ht => (h.pats t ht).mono hs, h.ids⟩
  · obtain ha | ha := List.mem_append.mp ha
    · exact (h.access a ha).mono hs
    · obtain rfl := List.mem_singleton.mp ha
      exact ⟨_, List.mem_cons_self, rfl, rfl⟩
  · obtain hr | hr := List.mem_append.mp hr
    · exact (h.refresh r hr).mono hs
    · obtain rfl := List.mem_singleton.mp hr
      exact ⟨_, List.mem_cons_self, rfl, _, rfl⟩

/-- The transaction of a refresh is a logout's revocation and a new pair. -/
theorem AuthStore.exchangePair_eq (rt : RefreshToken) :
    s.exchangePair K S rt k =
      ({ s with tables := K.revoke s.clock rt.id s.tables } : AuthStore).mintPair S rt.userId k
        (.refresh rt.id) := rfl

/-- **A new personal access token.** -/
theorem CredentialsOk.mintToken (h : CredentialsOk s) {id : Id} {secret name raw : String} {days : Option ℤ}
    {tokens : List CliToken} {grounds : Grounds} (hn : s.IsNew (.pat id))
    (hm : CliTokenService.mint X.sha256 s.clock id secret user name days s.cliTokens = .ok (tokens, raw))
    (hf : Issue.Founded s.issued ⟨.pat id, user, grounds⟩) :
    CredentialsOk { s with cliTokens := tokens, issued := ⟨.pat id, user, grounds⟩ :: s.issued } := by
  obtain ⟨row, rfl, hid, huser, -⟩ := mint_eq_ok hm
  have hs : s.issued ⊆ ⟨.pat id, user, grounds⟩ :: s.issued := List.subset_cons_self _ _
  refine ⟨h.issues.cons hn hf, fun a ha => (h.access a ha).mono hs, fun r hr => (h.refresh r hr).mono hs,
    fun t ht => ?_, ?_⟩
  · obtain ht | ht := List.mem_append.mp ht
    · exact (h.pats t ht).mono hs
    · obtain rfl := List.mem_singleton.mp ht
      exact ⟨_, List.mem_cons_self, huser.symm, hid.symm⟩
  · rw [List.map_append]
    refine h.ids.append (List.nodup_singleton _) (List.disjoint_singleton.mpr ?_)
    intro hmem
    obtain ⟨t, ht, htid⟩ := List.mem_map.mp hmem
    obtain ⟨i, hi, -, his⟩ := h.pats t ht
    refine hn i hi ?_
    have hnew : Credential.Is (.pat id) (.pat id) := rfl
    exact hnew.clash ((htid.trans hid) ▸ his)

/-- The record of the issues grows. -/
theorem AuthThread.Step.issued_subset (h : AuthThread.Step X K S t s s' t') : s.issued ⊆ s'.issued := by
  cases h <;> first | exact List.Subset.refl _ | exact List.subset_cons_self _ _

/-- **One step.** -/
theorem AuthThread.Step.credentialsOk (h : AuthThread.Step X K S t s s' t') (hs : CredentialsOk s)
    (ht : t.Known s.issued) : CredentialsOk s' ∧ t'.Known s'.issued := by
  cases h with
  | signUp k hu hk hn =>
    refine ⟨CredentialsOk.mintPair (s := { s with users := s.users ++ [_] }) ⟨hs.issues, hs.access,
      hs.refresh, hs.pats, hs.ids⟩ hn (.inl (.inl rfl)), trivial⟩
  | login k hu hk hn => exact ⟨hs.mintPair hn (.inl (.inl rfl)), trivial⟩
  | issueCliToken hu hn hm hh => exact ⟨hs.mintToken hn hm (.inl (.inr rfl)), trivial⟩
  | authenticate request hw => exact ⟨hs, hs.authenticated hw⟩
  | touch hmem hw =>
    refine ⟨?_, ht⟩
    unfold CliTokenService.touch
    split_ifs
    · exact hs.update (fun _ => rfl) fun _ => rfl
    · exact hs
  | mint hn hm hh => exact ⟨hs.mintToken hn hm (.inr ⟨fun _ h => (by cases h), ht⟩), trivial⟩
  | revoke tokenId => exact ⟨hs.update (fun _ => rfl) fun _ => rfl, trivial⟩
  | check => exact ⟨hs, ht⟩
  | complete k hk hn => exact ⟨hs.mintPair hn (.inr ⟨fun _ h => (by cases h), ht⟩), trivial⟩
  | readRefresh hr hv => exact ⟨hs, hs.refresh _ hr⟩
  | exchange k hk hn =>
    refine ⟨?_, trivial⟩
    rw [AuthStore.exchangePair_eq]
    exact (hs.tables (K.revokes _ _ _).kept).mintPair hn (.inr ⟨fun _ h => (by cases h), ht⟩)
  | logout tokenValue => exact ⟨hs.tables (kept_revoke tokenValue), trivial⟩
  | poll => refine ⟨hs, ?_⟩; split_ifs <;> trivial
  | create | put | deny | take | done | expire | tick =>
    exact ⟨⟨hs.issues, hs.access, hs.refresh, hs.pats, hs.ids⟩, trivial⟩

/-- Nothing is issued yet, and no request is under way. -/
def AuthInit (c : Conf AuthStore AuthThread) : Prop :=
  c.shared.issued = [] ∧ c.shared.tables = {} ∧ c.shared.cliTokens = [] ∧
    ∀ p, c.thread p = .idle ∨ c.thread p = .clock

theorem credentialsOk_of_init (h : AuthInit c) : CredentialsOk c.shared := by
  obtain ⟨hi, ht, hp, -⟩ := h
  refine ⟨⟨?_, ?_, ?_⟩, ?_, ?_, ?_, ?_⟩ <;> simp [hi, ht, hp]

/-- **Every run.** -/
theorem credentialsOk (h : Reach (AuthThread.Step X K S) AuthInit c) :
    CredentialsOk c.shared ∧ ∀ p, (c.thread p).Known c.shared.issued :=
  h.each (G := CredentialsOk) (L := fun s t => t.Known s.issued)
    (fun c hc => ⟨credentialsOk_of_init hc, fun p => by
      obtain hp | hp := hc.2.2.2 p <;> rw [hp] <;> trivial⟩)
    (fun hs ht hstep _ => hstep.credentialsOk hs (ht _))
    fun _ ht hstep _ _ => (ht _).mono hstep.issued_subset

/-- **Where credentials come from**, in every run: what authenticates a request was issued to its user,
on a password, from the shell or by descent from such an issue to the same user. A credential and what
comes from it are one user's, and what comes from a personal access token comes through a device session
that was completed with it. -/
theorem credentials_descend (h : Reach (AuthThread.Step X K S) AuthInit c) :
    (∀ request who, authenticate X c.shared.users c.shared.clock c.shared.tables c.shared.cliTokens
        request = .ok (some who) →
      ∃ i ∈ c.shared.issued, i.user = who.user ∧ i.credential.Is who.authority ∧
        i.Rooted c.shared.issued) ∧
    ∀ i ∈ c.shared.issued, ∀ j ∈ c.shared.issued,
      Descends c.shared.issued i.credential j.credential → i.user = j.user ∧
        ∀ id, i.credential = .pat id → ∃ d ∈ c.shared.issued, d.grounds = .device (.pat id) ∧
          (d = j ∨ Descends c.shared.issued d.credential j.credential) := by
  obtain ⟨hok, -⟩ := credentialsOk h
  refine ⟨fun request who hw => ?_, fun i hi j hj hd => ?_⟩
  · obtain ⟨i, hi, huser, his⟩ := hok.authenticated hw
    exact ⟨i, hi, huser, his, hok.issues.rooted i hi⟩
  · obtain ⟨j', hj', heq, huser, hdevice⟩ := hok.issues.descends hi hd
    obtain rfl := hok.issues.unique j' hj' j hj (heq ▸ Credential.clash_self _)
    refine ⟨huser, fun id hpat => ?_⟩
    obtain ⟨d, hdm, hg, hself | hdesc⟩ := hdevice id hpat
    · exact ⟨d, hdm, hg, .inl (hok.issues.unique d hdm j' hj' (hself ▸ Credential.clash_self _))⟩
    · exact ⟨d, hdm, hg, .inr hdesc⟩

/-! ## Revocation -/

/-- The personal access token was issued, and its rows are revoked. -/
structure PatRevoked (id : Id) (s : AuthStore) : Prop where
  issued : ∃ i ∈ s.issued, i.credential = .pat id
  rows : ∀ t ∈ s.cliTokens, t.id = id → t.revokedAt ≠ none

theorem PatRevoked.mono {id : Id} (h : PatRevoked id s) (hi : s.issued ⊆ s'.issued)
    (hrows : ∀ t ∈ s'.cliTokens, t.id = id → ∃ t' ∈ s.cliTokens, t'.id = id ∧
      (t'.revokedAt ≠ none → t.revokedAt ≠ none)) : PatRevoked id s' := by
  obtain ⟨i, hmem, hc⟩ := h.issued
  refine ⟨⟨i, hi hmem, hc⟩, fun t ht hid => ?_⟩
  obtain ⟨t', ht', hid', himp⟩ := hrows t ht hid
  exact himp (h.rows t' ht' hid')

theorem PatRevoked.mintToken {id id' : Id} (h : PatRevoked id s) {secret name raw : String}
    {days : Option ℤ} {tokens : List CliToken} {issue : Issue} (hn : s.IsNew (.pat id'))
    (hm : CliTokenService.mint X.sha256 s.clock id' secret user name days s.cliTokens =
      .ok (tokens, raw)) :
    PatRevoked id { s with cliTokens := tokens, issued := issue :: s.issued } := by
  obtain ⟨row, rfl, hid, -⟩ := mint_eq_ok hm
  obtain ⟨i, hi, hc⟩ := h.issued
  refine h.mono (List.subset_cons_self _ _) fun t ht htid => ?_
  obtain ht | ht := List.mem_append.mp ht
  · exact ⟨t, ht, htid, fun hr => hr⟩
  · obtain rfl := List.mem_singleton.mp ht
    -- the id of the new row was issued before
    refine absurd ?_ (hn i hi)
    rw [hc]
    exact hid.symm.trans htid

theorem PatRevoked.update {id : Id} (h : PatRevoked id s) {p : CliToken → Bool}
    {f : CliToken → CliToken} (hid : ∀ t, (f t).id = t.id)
    (hrev : ∀ t, t.revokedAt ≠ none → (f t).revokedAt ≠ none) :
    PatRevoked id { s with cliTokens := Table.update p f s.cliTokens } := by
  refine h.mono (List.Subset.refl _) fun t ht htid => ?_
  obtain ⟨t', ht', rfl⟩ := Table.mem_update.mp ht
  refine ⟨t', ht', ?_, fun hr => ?_⟩
  · split_ifs at htid
    · exact (hid t').symm.trans htid
    · exact htid
  · split_ifs
    · exact hrev t' hr
    · exact hr

/-- A step leaves a revoked token revoked. -/
theorem AuthThread.Step.patRevoked {id : Id} (h : AuthThread.Step X K S t s s' t')
    (hr : PatRevoked id s) : PatRevoked id s' := by
  cases h with
  | issueCliToken hu hn hm hh => exact hr.mintToken hn hm
  | mint hn hm hh => exact hr.mintToken hn hm
  | touch =>
    unfold CliTokenService.touch
    split_ifs
    · exact hr.update (fun _ => rfl) fun _ h => h
    · exact hr
  | revoke tokenId => exact hr.update (fun _ => rfl) fun _ _ => Option.some_ne_none _
  | signUp | login | complete | exchange =>
    exact hr.mono (List.subset_cons_self _ _) fun t ht htid => ⟨t, ht, htid, fun hn => hn⟩
  | authenticate | check | poll | readRefresh | done => exact hr
  | create | put | deny | take | logout | expire | tick =>
    exact hr.mono (List.Subset.refl _) fun t ht htid => ⟨t, ht, htid, fun hn => hn⟩

/-- **A revoked personal access token is refused for good.** Once its row is revoked no request of any
later run authenticates with it. -/
theorem revoked_refused {c' : Conf AuthStore AuthThread} {token : CliToken}
    (h : Reach (AuthThread.Step X K S) AuthInit c) (ht : token ∈ c.shared.cliTokens)
    (hr : token.revokedAt ≠ none) (h' : Reach (AuthThread.Step X K S) (· = c) c')
    (request : AuthRequest) (user : Id) :
    authenticate X c'.shared.users c'.shared.clock c'.shared.tables c'.shared.cliTokens request ≠
      .ok (some ⟨user, .pat token.id⟩) := by
  obtain ⟨hok, -⟩ := credentialsOk h
  have hrevoked : PatRevoked token.id c.shared := by
    obtain ⟨i, hi, -, his⟩ := hok.pats token ht
    refine ⟨⟨i, hi, ?_⟩, fun t htm hid => ?_⟩
    · cases hc : i.credential with
      | session a r => simp [hc, Credential.Is] at his
      | pat id => rw [hc] at his; exact congrArg Credential.pat his
    · obtain rfl := Table.eq_of_key hok.ids htm ht hid
      exact hr
  have hinv : PatRevoked token.id c'.shared :=
    h'.invariant (I := fun c => PatRevoked token.id c.shared) (fun c₀ (hc : c₀ = c) => hc ▸ hrevoked)
      fun _ _ _ _ hi hs _ => hs.patRevoked hi
  intro hw
  obtain ⟨row, hrow, hid, hvalid⟩ := authenticated_pat hw
  exact hinv.rows row hrow hid hvalid.1

end Invariant

/-! ## What outlives a revocation -/

/-- Token texts, one for each number. -/
def keyText (n : ℕ) : String := String.ofList (List.replicate (n + 1) 'k')

/-- A request with a token in its header. -/
def bearerRequest (method token : String) : AuthRequest where
  method := method
  authorization := bearerPrefix ++ token

/-- The ids of the credential's rows. -/
def Credential.ids : Credential → List Id
  | .session a r => [a, r]
  | .pat _ => []

theorem keyText_injective : Function.Injective keyText := by
  intro m n h
  have hlist := String.ofList_injective h
  simpa using congrArg List.length hlist

theorem exists_unused {α : Type} [DecidableEq α] {name : ℕ → α} (hname : Function.Injective name)
    (used : List α) : ∃ n, name n ∉ used :=
  ⟨_, Fresh.search_notMem hname (Nat.lt_succ_self _) 0⟩

/-- There are keys for another pair. -/
theorem exists_keys (s : AuthStore) : ∃ k : MintKeys, k.Fresh s.tables ∧
    s.IsNew (.session k.accessId k.refreshId) ∧ ∃ n, k.accessToken = keyText n := by
  obtain ⟨n, hn⟩ := exists_unused Function.injective_id
    (s.issued.flatMap (·.credential.ids) ++ s.tables.accessTokens.map (·.id) ++
      s.tables.refreshTokens.map (·.id))
  obtain ⟨m, hm⟩ := exists_unused keyText_injective
    (s.tables.accessTokens.map (·.token) ++ s.tables.refreshTokens.map (·.token))
  simp only [List.mem_append, not_or, id] at hn hm
  refine ⟨⟨n, keyText m, n, keyText m⟩, ⟨hn.1.2, hm.1, hn.2, hm.2⟩, fun i hi hc => ?_, m, rfl⟩
  refine hn.1.1 (List.mem_flatMap.mpr ⟨i, hi, ?_⟩)
  cases h : i.credential with
  | session a r => simpa [h, Credential.Clash, Credential.ids] using hc
  | pat id => simp [h, Credential.Clash] at hc

theorem extractBearer_keyText (method : String) (n : ℕ) :
    extractBearer (bearerRequest method (keyText n)) = some (keyText n) := by
  have hk : isSpace 'k' = false := by decide
  have hstrip : strip (List.replicate (n + 1) 'k') = List.replicate (n + 1) 'k' := by
    simp [strip, List.rdropWhile, List.replicate_succ, hk, ← List.replicate_succ']
  have hlist : (bearerRequest method (keyText n)).authorization.toList =
      bearerPrefix.toList ++ List.replicate (n + 1) 'k' := by
    simp [bearerRequest, keyText]
  simp only [extractBearer, hlist, List.prefix_append, if_true, List.drop_left, hstrip]
  rfl

theorem not_isPat_keyText (n : ℕ) : ¬ CliTokenService.IsPat (keyText n) := by
  simp [CliTokenService.IsPat, CliTokenService.tokenPrefix, keyText, List.replicate_succ]

section Outlives

variable {X : AuthConfig} {K : OAuthToolkit} {S : AuthSettings} {c : Conf AuthStore AuthThread}
  {p q r : ℕ} {k : MintKeys} {user id : Id}

/-- **A new pair authenticates** its user while its access token is valid. -/
theorem authenticate_mintPair {users : List Id} {now : Time} {t : TokenTables}
    {cliTokens : List CliToken} {n : ℕ} (method : String)
    (hk : k.accessToken ∉ t.accessTokens.map (·.token)) (hn : k.accessToken = keyText n)
    (hexp : 0 < S.accessTokenExpiresSeconds) :
    authenticate X users now (TokenService.mintPair S now user k t) cliTokens
      (bearerRequest method k.accessToken) = .ok (some ⟨user, .session k.accessId⟩) := by
  have hnone : t.accessTokens.find? (fun a => decide (a.token = k.accessToken)) = none :=
    List.find?_eq_none.mpr fun a ha hd =>
      hk (List.mem_map.mpr ⟨a, ha, of_decide_eq_true hd⟩)
  have hrow : userFromAccessToken now k.accessToken (TokenService.mintPair S now user k t) =
      some ⟨k.accessId, k.accessToken, user, now + S.accessTokenExpiresSeconds⟩ := by
    have hvalid : now < now + S.accessTokenExpiresSeconds := Int.lt_add_of_pos_right now hexp
    simp [userFromAccessToken, TokenService.mintPair, List.find?_append, hnone, hvalid]
  exact authenticate_bearer (hn ▸ extractBearer_keyText method n) (hn ▸ not_isPat_keyText n) hrow

/-- A request that completes a device session hands its client a pair. -/
theorem exists_complete {request : AuthRequest} {who : Identity}
    (hp : c.thread p = .identified request who) (hr : c.thread r = .idle)
    {session code secret : String} (hb : c.shared.bags session = none)
    (hcode : normalizeUserCode X.toDeviceFns code ≠ "") (hsecret : secret ≠ "")
    (hhash : X.sha256 secret ≠ "") :
    ∃ k n c', k.Fresh c.shared.tables ∧ k.accessToken = keyText n ∧
      Reach (AuthThread.Step X K S) (· = c) c' ∧
      (∀ q, q ≠ p → q ≠ r → c'.thread q = c.thread q) ∧ c'.thread r = .idle ∧
      c'.shared.clock = c.shared.clock ∧ c'.shared.users = c.shared.users ∧
      c'.shared.cliTokens = c.shared.cliTokens ∧
      c'.shared.tables = TokenService.mintPair S c.shared.clock who.user k c.shared.tables ∧
      c'.shared.issued =
        ⟨.session k.accessId k.refreshId, who.user, .device who.authority⟩ :: c.shared.issued := by
  obtain ⟨k, hk, hn, n, hkn⟩ := exists_keys c.shared
  have hpr : p ≠ r := fun h => by simp [h, hr] at hp
  let state := DeviceSessionState.create X.toDeviceFns code secret
  have hpending : ¬ state.IsCompleted := fun h => by cases h
  have hdone : (state.completeWith c.shared.pairs.length).IsCompleted := rfl
  have h0 : Reach (AuthThread.Step X K S) (· = c) c := .init rfl
  -- the client creates the session, and its user completes it
  have hcreate : AuthThread.Step X K S .idle c.shared
      { c.shared with bags := Function.update c.shared.bags session (some state) } .idle := .create hb
  have h1 := h0.next r hcreate hr rfl
  have hcheck : AuthThread.Step X K S (.identified request who)
      { c.shared with bags := Function.update c.shared.bags session (some state) }
      { c.shared with bags := Function.update c.shared.bags session (some state) }
      (.completing who session state) :=
    .check (Function.update_self session (some state) c.shared.bags) hpending ⟨hcode, hcode, rfl⟩
  have h2 := h1.next p hcheck ((Conf.thread_set_of_ne c hpr _ _).trans hp) rfl
  have h3 := h2.again (.complete k hk hn)
  have h4 := h3.again .put
  -- the client polls, and takes the pair
  have hbag : ∀ bags : String → Option DeviceSessionState, Function.update bags session
      (some (state.completeWith c.shared.pairs.length)) session =
        some (state.completeWith c.shared.pairs.length) :=
    fun bags => Function.update_self session _ bags
  have h5 := h4.next r (.poll (hbag _) ⟨hsecret, hhash, rfl⟩)
    ((Conf.thread_set_of_ne _ hpr.symm _ _).trans (Conf.thread_set_self c r _ _)) rfl
  rw [if_pos hdone] at h5
  have h7 := (h5.again .take).again .done
  refine ⟨k, n, _, hk, hkn, h7, fun q hqp hqr => ?_, Conf.thread_set_self _ _ _ _, rfl, rfl, rfl, rfl,
    rfl⟩
  rw [Conf.thread_set_of_ne _ hqr, Conf.thread_set_of_ne _ hqp, Conf.thread_set_of_ne _ hqr]

/-- A user's request revokes a personal access token of the user. -/
theorem revoke_marks {now : Time} {tokens : List CliToken}
    (howner : ∀ t ∈ tokens, t.id = id → t.userId = user) :
    ∀ t ∈ (CliTokenService.revoke now user id tokens).1, t.id = id → t.revokedAt ≠ none := by
  refine Table.forall_update (fun t _ _ _ => Option.some_ne_none now) fun t ht hguard hid hnone => ?_
  exact of_decide_eq_false hguard ⟨hid, howner t ht hid, hnone⟩

/-- **A personal access token outlives its revocation.** A request that it authenticates can complete a
device session. The pair that the session's client takes has no row among the personal access tokens:
after the token's revocation, and at any later time, a refresh gives it a session of the user. -/
theorem pat_outlives_revocation (h : Reach (AuthThread.Step X K S) AuthInit c) {request : AuthRequest}
    (hp : c.thread p = .identified request ⟨user, .pat id⟩) (hr : c.thread r = .idle)
    (hq : c.thread q = .clock) {session code secret : String} (hb : c.shared.bags session = none)
    (hcode : normalizeUserCode X.toDeviceFns code ≠ "") (hsecret : secret ≠ "")
    (hhash : X.sha256 secret ≠ "") (hexp : 0 < S.accessTokenExpiresSeconds) (T : Time) :
    ∃ c' request' accessId refreshId accessId' refreshId',
      Reach (AuthThread.Step X K S) (· = c) c' ∧ T ≤ c'.shared.clock ∧
      (∀ t ∈ c'.shared.cliTokens, t.id = id → t.revokedAt ≠ none) ∧
      c'.shared.issued = ⟨.session accessId' refreshId', user, .refresh refreshId⟩ ::
        ⟨.session accessId refreshId, user, .device (.pat id)⟩ :: c.shared.issued ∧
      authenticate X c'.shared.users c'.shared.clock c'.shared.tables c'.shared.cliTokens request' =
        .ok (some ⟨user, .session accessId'⟩) := by
  have hpq : q ≠ p := fun heq => by simp [← heq, hq] at hp
  have hqr : q ≠ r := fun heq => by simp [← heq, hq] at hr
  obtain ⟨k, n, c₁, hk, hkn, h1, hthreads, hr₁, hclock, husers, hpats, htables, hissued⟩ :=
    exists_complete (K := K) (S := S) hp hr hb hcode hsecret hhash
  -- the pair revokes the token
  have howner : ∀ t ∈ c₁.shared.cliTokens, t.id = id → t.userId = user := by
    obtain ⟨hok, hknown⟩ := credentialsOk h
    obtain ⟨i, hi, huser, his⟩ : Issued c.shared.issued user (·.Is (.pat id)) := by
      simpa [AuthThread.Known, hp] using hknown p
    intro t ht hid
    obtain ⟨j, hj, htuser, hjs⟩ := hok.pats t (hpats ▸ ht)
    rw [hid] at hjs
    obtain rfl := hok.issues.unique i hi j hj (his.clash hjs)
    exact htuser.symm.trans huser
  have hwho : authenticate X c₁.shared.users c₁.shared.clock c₁.shared.tables c₁.shared.cliTokens
      (bearerRequest "DELETE" k.accessToken) = .ok (some ⟨user, .session k.accessId⟩) := by
    rw [htables, hclock]
    exact authenticate_mintPair "DELETE" hk.accessToken hkn hexp
  have h2 := (h1.next r (.authenticate _ hwho) hr₁ rfl).again (.revoke id)
  -- time passes, and the pair is refreshed
  have hthread : c₁.thread q = .clock := (hthreads q hpq hqr).trans hq
  let s₂ : AuthStore := { c₁.shared with
    cliTokens := (CliTokenService.revoke c₁.shared.clock user id c₁.shared.cliTokens).1 }
  have htick : AuthThread.Step X K S .clock s₂ { s₂ with clock := max s₂.clock T } .clock :=
    .tick _ (le_max_left _ _)
  have h3 := h2.next q htick ((Conf.thread_set_of_ne _ hqr _ _).trans hthread) rfl
  obtain ⟨k', hk', hn', n', hkn'⟩ := exists_keys c₁.shared
  have hrow : (⟨k.refreshId, k.refreshToken, user, some k.accessId, c.shared.clock, none⟩ :
      RefreshToken) ∈ c₁.shared.tables.refreshTokens := by
    rw [htables]
    exact List.mem_append_right _ (List.mem_singleton_self _)
  have hread : AuthThread.Step X K S .idle { s₂ with clock := max s₂.clock T }
      { s₂ with clock := max s₂.clock T } (.refreshing _) := .readRefresh hrow rfl
  have h4 := (h3.next r hread ((Conf.thread_set_of_ne _ hqr.symm _ _).trans
    (Conf.thread_set_self c₁ r _ _)) rfl).again (.exchange k' hk' hn')
  refine ⟨_, bearerRequest "GET" k'.accessToken, k.accessId, k.refreshId, k'.accessId, k'.refreshId, h4,
    le_max_right _ _, revoke_marks howner, congrArg _ hissued, ?_⟩
  refine authenticate_mintPair "GET" (fun hmem => hk'.accessToken ?_) hkn' hexp
  obtain ⟨a, ha, htoken⟩ := List.mem_map.mp hmem
  exact List.mem_map.mpr ⟨a, (K.revokes _ _ _).kept.access a ha, htoken⟩

end Outlives

/-! ## A run -/

/-- The functions on the texts of the sample. -/
def sampleAuthConfig : AuthConfig where
  sha256 s :=
    if s = "mgp_s3cret" then "e41c94ed82b4fc832e25cb4f189ac038fda3fd5463cde8f2e10287397a008cfd"
    else "acf27d1d31466be5132901112e8a2f2cff0999867d3097ec016d2ec39c18e187"
  isalnum := Char.isAlphanum
  upper s := String.ofList (s.toList.map Char.toUpper)
  appBaseUrl := "https://app.example"

/-- No request yet. -/
def authStart : Conf AuthStore AuthThread := ⟨{}, fun p => if p = 2 then .clock else .idle⟩

/-- User 7 signs up, and the shell issues a token. -/
def sampleAuthStore : AuthStore where
  users := [7]
  tables := TokenService.mintPair {} 0 7 ⟨1, "a1", 1, "r1"⟩ {}
  cliTokens := [{ id := 5, userId := 7, name := "ci", lastFour := "cret",
                  tokenHash := "e41c94ed82b4fc832e25cb4f189ac038fda3fd5463cde8f2e10287397a008cfd" }]
  pairs := [⟨1, "a1", 1, "r1"⟩]
  issued := [⟨.pat 5, 7, .shell⟩, ⟨.session 1 1, 7, .password⟩]

theorem init_authStart : AuthInit authStart := by
  refine ⟨rfl, rfl, rfl, fun p => ?_⟩
  by_cases hp : p = 2 <;> simp [authStart, hp]

theorem sampleCode_ne : normalizeUserCode sampleAuthConfig.toDeviceFns "BCDF-GHJK" ≠ "" := by
  decide

/-- A request with the token. -/
theorem reach_identified : Reach (AuthThread.Step sampleAuthConfig sampleToolkit {}) AuthInit
    (authStart.set 0 sampleAuthStore
      (.identified (bearerRequest "POST" "mgp_s3cret") ⟨7, .pat 5⟩)) := by
  have h0 : Reach (AuthThread.Step sampleAuthConfig sampleToolkit {}) AuthInit authStart :=
    .init init_authStart
  have hsignUp : AuthThread.Step sampleAuthConfig sampleToolkit {} .idle {}
      { sampleAuthStore with cliTokens := [], issued := [⟨.session 1 1, 7, .password⟩] } .idle :=
    .signUp ⟨1, "a1", 1, "r1"⟩ (by decide) ⟨by decide, by decide, by decide, by decide⟩
      fun i hi => (by cases hi)
  have hissue : AuthThread.Step sampleAuthConfig sampleToolkit {} .idle
      { sampleAuthStore with cliTokens := [], issued := [⟨.session 1 1, 7, .password⟩] }
      sampleAuthStore .idle := by
    have hnew : AuthStore.IsNew
        { sampleAuthStore with cliTokens := [], issued := [⟨.session 1 1, 7, .password⟩] } (.pat 5) := by
      intro i hi
      obtain rfl := List.mem_singleton.mp hi
      exact fun h => h
    have hmint : CliTokenService.mint sampleAuthConfig.sha256 0 5 "s3cret" 7 "ci" none [] =
        .ok (sampleAuthStore.cliTokens, "mgp_s3cret") := rfl
    exact .issueCliToken (by decide) hnew hmint (by decide)
  exact (((h0.next 0 hsignUp rfl rfl).again hissue).again
    (.authenticate (bearerRequest "POST" "mgp_s3cret") rfl))

/-- The request's token completes a session, and what the session gives is user 7's. -/
theorem credentials_descend_sample : ∃ c, Reach (AuthThread.Step sampleAuthConfig sampleToolkit {})
    AuthInit c ∧ ∃ i ∈ c.shared.issued, ∃ j ∈ c.shared.issued, i.credential = .pat 5 ∧
      j.grounds = .device (.pat 5) ∧ i.user = j.user := by
  obtain ⟨k, n, c', -, -, h', -, -, -, -, -, -, hissued⟩ :=
    @exists_complete sampleAuthConfig sampleToolkit {}
      (authStart.set 0 sampleAuthStore
        (.identified (bearerRequest "POST" "mgp_s3cret") ⟨7, .pat 5⟩)) 0 1 _ _ rfl rfl "s" "BCDF-GHJK"
      "dev1ce" rfl sampleCode_ne (by decide) (by decide)
  have h := reach_identified.trans h'
  have hi : (⟨.pat 5, 7, .shell⟩ : Issue) ∈ c'.shared.issued := by
    rw [hissued]
    exact List.mem_cons_of_mem _ List.mem_cons_self
  have hj := hissued ▸ List.mem_cons_self
  exact ⟨c', h, _, hi, _, hj, rfl, rfl, ((credentials_descend h).2 _ hi _ hj (.child hj rfl)).1⟩

/-- The store after the token's revocation. -/
def revokedStore : AuthStore :=
  { sampleAuthStore with
    cliTokens := (CliTokenService.revoke 0 7 5 sampleAuthStore.cliTokens).1 }

/-- The token is revoked; then its user logs in, a device session is created and a day passes. The
token's request is refused. -/
theorem revoked_refused_sample : ∃ c : Conf AuthStore AuthThread,
    Reach (AuthThread.Step sampleAuthConfig sampleToolkit {}) AuthInit c ∧ c.shared.clock = 86400 ∧
      c.shared.issued.map (·.credential) = [.session 2 2, .pat 5, .session 1 1] ∧
      authenticate sampleAuthConfig c.shared.users c.shared.clock c.shared.tables c.shared.cliTokens
        (bearerRequest "POST" "mgp_s3cret") ≠ .ok (some ⟨7, .pat 5⟩) := by
  have hrevoked : Reach (AuthThread.Step sampleAuthConfig sampleToolkit {}) AuthInit
      (authStart.set 0 revokedStore .idle) := reach_identified.again (.revoke 5)
  have hlogin : AuthThread.Step sampleAuthConfig sampleToolkit {} .idle revokedStore
      (revokedStore.mintPair {} 7 ⟨2, "a2", 2, "r2"⟩ .password) .idle := by
    refine .login _ (by decide) ⟨by decide, by decide, by decide, by decide⟩ fun i hi => ?_
    rcases List.mem_cons.mp hi with rfl | hi
    · exact fun h => h
    · obtain rfl := List.mem_singleton.mp hi
      exact fun h => h.elim (by decide) (by decide)
  have h0 : Reach (AuthThread.Step sampleAuthConfig sampleToolkit {})
      (· = authStart.set 0 revokedStore .idle) (authStart.set 0 revokedStore .idle) := .init rfl
  have h1 := h0.next 1 hlogin rfl rfl
  have h2 := h1.again (@AuthThread.Step.create sampleAuthConfig sampleToolkit {} _ "s" "BCDF-GHJK"
    "dev1ce" rfl)
  have h3 := h2.next 2 (.tick 86400 (by decide)) rfl rfl
  exact ⟨_, hrevoked.trans h3, rfl, rfl, revoked_refused hrevoked List.mem_cons_self (by decide) h3
    (bearerRequest "POST" "mgp_s3cret") 7⟩

/-- A year after the token's revocation. -/
theorem pat_outlives_revocation_sample : ∃ c request accessId,
    Reach (AuthThread.Step sampleAuthConfig sampleToolkit {}) AuthInit c ∧
      365 * 86400 ≤ c.shared.clock ∧ (∀ t ∈ c.shared.cliTokens, t.id = 5 → t.revokedAt ≠ none) ∧
      authenticate sampleAuthConfig c.shared.users c.shared.clock c.shared.tables c.shared.cliTokens
        request = .ok (some ⟨7, .session accessId⟩) := by
  obtain ⟨c', request', accessId, refreshId, accessId', refreshId', h', hclock, hrevoked, -, hwho⟩ :=
    @pat_outlives_revocation _ _ _ _ 0 2 1 _ _ reach_identified _ rfl rfl rfl "s" _ "dev1ce" rfl
      sampleCode_ne (by decide) (by decide) (by decide) (365 * 86400)
  exact ⟨c', request', accessId', reach_identified.trans h', hclock, hrevoked, hwho⟩

end OpenMagpie
