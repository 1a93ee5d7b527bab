import Mathlib.Tactic.SplitIfs
import OpenMagpie.Auth.DeviceSessions
import OpenMagpie.Auth.Tokens
import OpenMagpie.Watches.Kinds

/-!
# Personal access tokens

A personal access token is stored by its hash, bound to a user, and valid until it is revoked or
expires. A request is authenticated by such a token, by a session token in its header, or by a session
token in its cookie; the last only from an allowed origin, unless the request is a safe one.

* `CliTokenService`: minting, resolving and revoking.
* `authenticate`: the two authentication classes, in their order.
* **`authenticatedBy`**: the row that a request is authenticated by.
* `authenticate_bearer`: a request with a session token in its header is authenticated by it.
-/

set_option autoImplicit false

namespace OpenMagpie

/-! ## The tokens -/

/-- A row of `CliToken`. -/
structure CliToken where
  id : Id
  userId : Id
  name : String
  tokenHash : String
  lastFour : String
  lastUsedAt : Option Time := none
  expiresAt : Option Time := none
  revokedAt : Option Time := none
  deriving DecidableEq

/-- `is_valid`. -/
def CliToken.IsValid (now : Time) (t : CliToken) : Prop :=
  t.revokedAt = none ∧ ∀ e ∈ t.expiresAt, now < e

instance (now : Time) (t : CliToken) : Decidable (t.IsValid now) := by
  unfold CliToken.IsValid; infer_instance

namespace CliTokenService

def tokenPrefix : String := "mgp_"
def minExpiryDays : ℤ := 1
def maxExpiryDays : ℤ := 3650
def secondsPerDay : Time := 86400
def lastUsedThrottle : Time := 60

/-- The text starts with `mgp_`. -/
def IsPat (raw : String) : Prop := tokenPrefix.toList <+: raw.toList

instance (raw : String) : Decidable (IsPat raw) := by unfold IsPat; infer_instance

variable (sha256 : String → String)

/-- `mint`, from the id and the random part of the new token: the table and the raw token. -/
def mint (now : Time) (id : Id) (secret : String) (userId : Id) (name : String)
    (expiresInDays : Option ℤ) (tokens : List CliToken) : Except String (List CliToken × String) :=
  let name := strip name.toList
  if name = [] then .error "token name must not be blank"
  else if ∃ d ∈ expiresInDays, ¬ (minExpiryDays ≤ d ∧ d ≤ maxExpiryDays) then
    .error "expires_in_days must be between 1 and 3650"
  else
    let raw := tokenPrefix ++ secret
    .ok (tokens ++
      [{ id := id
         userId := userId
         name := String.ofList name
         tokenHash := sha256 raw
         lastFour := String.ofList (raw.toList.drop (raw.toList.length - 4))
         expiresAt := expiresInDays.map fun d => now + d * secondsPerDay }], raw)

/-- The row that `resolve` finds, when it returns the row's user. -/
def resolve (users : List Id) (now : Time) (raw : String) (tokens : List CliToken) : Option CliToken :=
  if IsPat raw then
    (tokens.find? fun t => decide (t.tokenHash = sha256 raw)).filter fun t =>
      decide (t.IsValid now ∧ t.userId ∈ users)
  else none

/-- The activity stamp of `resolve`. -/
def touch (now : Time) (token : CliToken) (tokens : List CliToken) : List CliToken :=
  if ∀ last ∈ token.lastUsedAt, lastUsedThrottle ≤ now - last then
    Table.update (fun t => decide (t.id = token.id)) (fun t => { t with lastUsedAt := some now }) tokens
  else tokens

/-- The rows that `revoke` selects. -/
def revokeGuard (userId tokenId : Id) (t : CliToken) : Bool :=
  decide (t.id = tokenId ∧ t.userId = userId ∧ t.revokedAt = none)

/-- `revoke`: the table, and whether a token was revoked. -/
def revoke (now : Time) (userId tokenId : Id) (tokens : List CliToken) : List CliToken × Bool :=
  (Table.update (revokeGuard userId tokenId) (fun t => { t with revokedAt := some now }) tokens,
    tokens.any (revokeGuard userId tokenId))

end CliTokenService

/-- What `mint` adds. -/
theorem mint_eq_ok {sha256 : String → String} {now : Time} {id user : Id} {secret name raw : String}
    {days : Option ℤ} {tokens tokens' : List CliToken}
    (h : CliTokenService.mint sha256 now id secret user name days tokens = .ok (tokens', raw)) :
    ∃ row, tokens' = tokens ++ [row] ∧ row.id = id ∧ row.userId = user ∧ row.revokedAt = none := by
  unfold CliTokenService.mint at h
  simp only at h
  split_ifs at h
  simp only [Except.ok.injEq, Prod.mk.injEq] at h
  exact ⟨_, h.1.symm, rfl, rfl, rfl⟩

/-! ## Authentication -/

/-- What the authentication reads of a request. -/
structure AuthRequest where
  method : String
  authorization : String := ""
  cookie : Option String := none
  origin : Option String := none

/-- The settings that it reads. -/
structure AuthConfig extends DeviceFns where
  appBaseUrl : String
  corsAllowedOrigins : List String := []

/-- The credential that a request is authenticated by: the row of an access token, or of a personal
access token. -/
inductive Authority
  | session (accessId : Id)
  | pat (id : Id)
  deriving DecidableEq

/-- `request.user`, and by what. -/
structure Identity where
  user : Id
  authority : Authority
  deriving DecidableEq

/-- Why a request is refused. -/
inductive AuthFailure
  | invalidPat
  | invalidBearer
  | invalidCookie
  | originNotAllowed
  deriving DecidableEq

def bearerPrefix : String := "Bearer "

/-- `_extract_bearer`. -/
def extractBearer (request : AuthRequest) : Option String :=
  if bearerPrefix.toList <+: request.authorization.toList then
    match strip (request.authorization.toList.drop bearerPrefix.toList.length) with
    | [] => none
    | token => some (String.ofList token)
  else none

/-- `s.rstrip("/")`. -/
def rstripSlash (s : String) : String := String.ofList (s.toList.rdropWhile (· = '/'))

variable (X : AuthConfig)

/-- `_allowed_origins`. -/
def allowedOrigins : List String := (X.appBaseUrl :: X.corsAllowedOrigins).map rstripSlash

def safeMethods : List String := ["GET", "HEAD", "OPTIONS", "TRACE"]

/-- `_user_from_access_token`: the row, when it returns the row's user. -/
def userFromAccessToken (now : Time) (token : String) (tables : TokenTables) : Option AccessToken :=
  (tables.accessTokens.find? fun a => decide (a.token = token)).filter fun a => decide (now < a.expires)

section Classes

variable (users : List Id) (now : Time) (tables : TokenTables) (cliTokens : List CliToken)

/-- `PersonalAccessTokenAuthentication.authenticate`. -/
def authenticatePat (request : AuthRequest) : Except AuthFailure (Option Identity) :=
  match extractBearer request with
  | none => .ok none
  | some token =>
    if CliTokenService.IsPat token then
      match CliTokenService.resolve X.sha256 users now token cliTokens with
      | none => .error .invalidPat
      | some row => .ok (some ⟨row.userId, .pat row.id⟩)
    else .ok none

/-- `BearerOrCookieAuthentication.authenticate`. -/
def authenticateBearerOrCookie (request : AuthRequest) : Except AuthFailure (Option Identity) :=
  match extractBearer request with
  | some token =>
    match userFromAccessToken now token tables with
    | none => .error .invalidBearer
    | some row => .ok (some ⟨row.userId, .session row.id⟩)
  | none =>
    if request.cookie.getD "" = "" then .ok none
    else
      match userFromAccessToken now (request.cookie.getD "") tables with
      | none => .error .invalidCookie
      | some row =>
        if request.method ∉ safeMethods ∧
            (rstripSlash (request.origin.getD "") = "" ∨
              rstripSlash (request.origin.getD "") ∉ allowedOrigins X) then
          .error .originNotAllowed
        else .ok (some ⟨row.userId, .session row.id⟩)

/-- The authentication classes in their order: the first that knows the request's credential. -/
def authenticate (request : AuthRequest) : Except AuthFailure (Option Identity) :=
  match authenticatePat X users now cliTokens request with
  | .error e => .error e
  | .ok (some who) => .ok (some who)
  | .ok none => authenticateBearerOrCookie X now tables request

end Classes

/-! ## What authenticates a request -/

variable {X} {users : List Id} {now : Time} {tables : TokenTables} {cliTokens : List CliToken}
  {request : AuthRequest} {who : Identity}

/-- A request with a session token: in its header, or in its cookie and from an allowed origin, unless
its method is safe. -/
inductive AuthRequest.CarriesSession (X : AuthConfig) (request : AuthRequest) (token : String) : Prop
  | bearer (h : extractBearer request = some token) (hpat : ¬ CliTokenService.IsPat token)
  | cookie (h : extractBearer request = none) (hc : request.cookie = some token)
      (ho : request.method ∈ safeMethods ∨
        rstripSlash (request.origin.getD "") ∈ allowedOrigins X)

/-- The row that a request is authenticated by. -/
inductive AuthenticatedBy (X : AuthConfig) (users : List Id) (now : Time) (tables : TokenTables)
    (cliTokens : List CliToken) (request : AuthRequest) : Identity → Prop
  | pat {raw : String} {row : CliToken} (hrow : row ∈ cliTokens) (hvalid : row.IsValid now)
      (huser : row.userId ∈ users) (hraw : extractBearer request = some raw)
      (hpat : CliTokenService.IsPat raw) (hhash : row.tokenHash = X.sha256 raw) :
      AuthenticatedBy X users now tables cliTokens request ⟨row.userId, .pat row.id⟩
  | session {row : AccessToken} (hrow : row ∈ tables.accessTokens) (hvalid : now < row.expires)
      (hcarries : request.CarriesSession X row.token) :
      AuthenticatedBy X users now tables cliTokens request ⟨row.userId, .session row.id⟩

theorem resolve_eq_some {raw : String} {row : CliToken}
    (h : CliTokenService.resolve X.sha256 users now raw cliTokens = some row) :
    row ∈ cliTokens ∧ row.IsValid now ∧ row.userId ∈ users ∧ row.tokenHash = X.sha256 raw := by
  unfold CliTokenService.resolve at h
  split_ifs at h
  obtain ⟨hfind, hok⟩ := Option.filter_eq_some_iff.mp h
  exact ⟨List.mem_of_find?_eq_some hfind, (of_decide_eq_true hok).1, (of_decide_eq_true hok).2,
    of_decide_eq_true (List.find?_some (p := fun t : CliToken => decide (t.tokenHash = X.sha256 raw)) hfind)⟩

theorem userFromAccessToken_eq_some {token : String} {row : AccessToken}
    (h : userFromAccessToken now token tables = some row) :
    row ∈ tables.accessTokens ∧ now < row.expires ∧ row.token = token := by
  obtain ⟨hfind, hok⟩ := Option.filter_eq_some_iff.mp h
  exact ⟨List.mem_of_find?_eq_some hfind, of_decide_eq_true hok,
    of_decide_eq_true (List.find?_some (p := fun a : AccessToken => decide (a.token = token)) hfind)⟩

theorem authenticatePat_eq_some
    (h : authenticatePat X users now cliTokens request = .ok (some who)) :
    AuthenticatedBy X users now tables cliTokens request who := by
  unfold authenticatePat at h
  cases hbearer : extractBearer request with
  | none => simp [hbearer] at h
  | some token =>
    simp only [hbearer] at h
    split_ifs at h with hpat
    · cases hrow : CliTokenService.resolve X.sha256 users now token cliTokens with
      | none => simp [hrow] at h
      | some row =>
        simp only [hrow, Except.ok.injEq, Option.some.injEq] at h
        subst h
        obtain ⟨hmem, hvalid, huser, hhash⟩ := resolve_eq_some hrow
        exact .pat hmem hvalid huser hbearer hpat hhash
    · simp at h

/-- A request that the first class passes on does not carry a personal access token. -/
theorem not_isPat_of_authenticatePat {token : String}
    (h : authenticatePat X users now cliTokens request = .ok none)
    (hbearer : extractBearer request = some token) : ¬ CliTokenService.IsPat token := by
  intro hpat
  simp only [authenticatePat, hbearer, if_pos hpat] at h
  cases hrow : CliTokenService.resolve X.sha256 users now token cliTokens with
  | none => simp [hrow] at h
  | some row => simp [hrow] at h

theorem authenticateBearerOrCookie_eq_some
    (h : authenticateBearerOrCookie X now tables request = .ok (some who))
    (hpat : ∀ token, extractBearer request = some token → ¬ CliTokenService.IsPat token) :
    AuthenticatedBy X users now tables cliTokens request who := by
  unfold authenticateBearerOrCookie at h
  cases hbearer : extractBearer request with
  | some token =>
    simp only [hbearer] at h
    cases hrow : userFromAccessToken now token tables with
    | none => simp [hrow] at h
    | some row =>
      simp only [hrow, Except.ok.injEq, Option.some.injEq] at h
      subst h
      obtain ⟨hmem, hvalid, rfl⟩ := userFromAccessToken_eq_some hrow
      exact .session hmem hvalid (.bearer hbearer (hpat _ hbearer))
  | none =>
    simp only [hbearer] at h
    cases hrow : userFromAccessToken now (request.cookie.getD "") tables with
    | none =>
      by_cases hblank : request.cookie.getD "" = ""
      · simp [hblank] at h
      · simp [hblank, hrow] at h
    | some row =>
      simp only [hrow] at h
      split_ifs at h with hblank horigin
      · simp at h
      · simp only [Except.ok.injEq, Option.some.injEq] at h
        subst h
        obtain ⟨hmem, hvalid, htoken⟩ := userFromAccessToken_eq_some hrow
        refine .session hmem hvalid (.cookie hbearer ?_ ?_)
        · cases hc : request.cookie with
          | none => simp [hc] at hblank
          | some token => rw [htoken, hc, Option.getD_some]
        · by_contra hno
          obtain ⟨hm, ho⟩ := not_or.mp hno
          exact horigin ⟨hm, .inr ho⟩

/-- **A request is authenticated by a valid row** whose secret it carries. -/
theorem authenticatedBy (h : authenticate X users now tables cliTokens request = .ok (some who)) :
    AuthenticatedBy X users now tables cliTokens request who := by
  unfold authenticate at h
  cases hpat : authenticatePat X users now cliTokens request with
  | error e => simp [hpat] at h
  | ok who' =>
    cases who' with
    | some who' =>
      simp only [hpat, Except.ok.injEq, Option.some.injEq] at h
      subst h
      exact authenticatePat_eq_some hpat
    | none =>
      simp only [hpat] at h
      exact authenticateBearerOrCookie_eq_some h fun token => not_isPat_of_authenticatePat hpat

/-- A request that a personal access token authenticates has its valid row. -/
theorem authenticated_pat {user id : Id}
    (h : authenticate X users now tables cliTokens request = .ok (some ⟨user, .pat id⟩)) :
    ∃ row ∈ cliTokens, row.id = id ∧ row.IsValid now := by
  generalize hw : (⟨user, .pat id⟩ : Identity) = who at h
  obtain ⟨hrow, hvalid⟩ | ⟨hrow⟩ := authenticatedBy h
  · simp only [Identity.mk.injEq, Authority.pat.injEq] at hw
    exact ⟨_, hrow, hw.2.symm, hvalid⟩
  · simp at hw

/-- **A session token in the header authenticates.** -/
theorem authenticate_bearer {token : String} {row : AccessToken} (hbearer : extractBearer request = some token)
    (hpat : ¬ CliTokenService.IsPat token) (hrow : userFromAccessToken now token tables = some row) :
    authenticate X users now tables cliTokens request = .ok (some ⟨row.userId, .session row.id⟩) := by
  simp [authenticate, authenticatePat, authenticateBearerOrCookie, hbearer, hpat, hrow]

end OpenMagpie
