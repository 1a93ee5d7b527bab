import OpenMagpie.Lib.Table
import OpenMagpie.Lib.Url
import OpenMagpie.Watches.Config

/-!
# The webhook kind

The config that bears secrets: the path and query of its URL and its header values.

* `redactUrl`, `WebhookConfig.redactedDump`: what a read shows.
* `WebhookConfig.mergePreserving`: what an edit carries forward from the stored config.
* `WebhookConfig.modelValidate_modelDump`: a dumped config loads as itself.
* **`WebhookConfig.restores`**: the masked form of a config, submitted back, merges to the config.
-/

set_option autoImplicit false

namespace OpenMagpie

open Url (Unicode)

/-! ## Secrets -/

/-- `REDACTED`. -/
def redacted : String := "***"

/-- `redact_url`: `scheme://host[:port]/***`, or the bare sentinel. -/
def redactUrl (U : Unicode) (url : String) : String :=
  match Url.urlsplit U url.toList with
  | none => redacted
  | some parts =>
    match parts.port, parts.hostname U with
    | some port, some (c :: host) =>
      if parts.scheme = [] then redacted
      else
        -- an IPv6 literal gets its brackets back
        let host := if (c :: host).contains ':' then '[' :: (c :: host) ++ [']'] else c :: host
        let netloc := match port with
          | some (n + 1) => host ++ ':' :: (toString (n + 1)).toList
          | _ => host
        String.ofList (parts.scheme ++ "://".toList ++ netloc ++ '/' :: redacted.toList)
    | _, _ => redacted

/-- `looks_redacted_url`. -/
def looksRedactedUrl (url : String) : Bool :=
  url = redacted || ('/' :: redacted.toList).isSuffixOf url.toList

/-! ## The config -/

inductive WebhookMethod
  | post
  | put
  | patch
  deriving DecidableEq, Repr

/-- `_validate_url`: why a URL is refused, none when it is not. -/
def urlError (U : Unicode) (url : String) : Option String :=
  match Url.urlsplit U url.toList with
  | none => some "Invalid IPv6 URL"
  | some parts =>
    if (parts.scheme = "http".toList ∨ parts.scheme = "https".toList) ∧
        (parts.hostname U).getD [] ≠ [] then
      if parts.port = none then some "url has an out-of-range port" else none
    else some "url must be an http(s) URL with a host"

variable (U : Unicode)

/-- Config of a `webhook` action. -/
structure WebhookConfig extends DeliveryConfigBase where
  url : String
  method : WebhookMethod := .post
  headers : List (String × String) := []
  includeFields : List String := []
  url_valid : urlError U url = none
  headers_nodup : (headers.map (·.1)).Nodup := by decide

namespace WebhookConfig

open LogConfig (field readCadence readInterval readStrings cadenceName readInterval_num readStrings_map)

def readMethod : Json → Option WebhookMethod
  | .str "POST" => some .post
  | .str "PUT" => some .put
  | .str "PATCH" => some .patch
  | _ => none

def methodName : WebhookMethod → String
  | .post => "POST"
  | .put => "PUT"
  | .patch => "PATCH"

variable (V : LaxMode)

def readHeaders : Json → Option (List (String × String))
  | .obj kvs => kvs.mapM fun (k, v) => (V.str v).map fun s => (k, s)
  | _ => none

variable {U}

/-- `WebhookConfig.model_validate`. -/
def modelValidate (d : Json) : Except ConfigError (WebhookConfig U) :=
  match field "delivery" .instant readCadence d,
    field "digest_interval_seconds" 0 (readInterval V) d, d.get? "url" >>= V.str,
    field "method" .post readMethod d, field "headers" [] (readHeaders V) d,
    field "include_fields" [] (readStrings V) d with
  | some delivery, some n, some url, some method, some headers, some fs =>
    match hu : urlError U url with
    | some message => .error (.validation message)
    | none =>
      if hk : (headers.map (·.1)).Nodup then
        if h : delivery = .digest → 0 < n then
          .ok { delivery := delivery, digestIntervalSeconds := n, digest_requires_interval := h,
                url := url, method := method, headers := headers, includeFields := fs,
                url_valid := hu, headers_nodup := hk }
        else .error (.validation "digest_interval_seconds must be > 0 when delivery is digest")
      else .error (.validation "invalid webhook config")
  | _, _, _, _, _, _ => .error (.validation "invalid webhook config")

/-- The blob with the given URL and headers, and `c`'s other fields. -/
def dumpWith (c : WebhookConfig U) (url : String) (headers : List (String × String)) : Json :=
  .obj [("delivery", .str (cadenceName c.delivery)),
    ("digest_interval_seconds", .num c.digestIntervalSeconds), ("url", .str url),
    ("method", .str (methodName c.method)),
    ("headers", .obj (headers.map fun (k, v) => (k, .str v))),
    ("include_fields", .arr (c.includeFields.map .str))]

/-- `WebhookConfig.model_dump`. -/
def modelDump (c : WebhookConfig U) : Json := c.dumpWith c.url c.headers

/-- `redacted_dump`: URL path and query and every header value are masked. -/
def redactedDump (c : WebhookConfig U) : Json :=
  c.dumpWith (redactUrl U c.url) (c.headers.map fun (k, _) => (k, redacted))

/-- `has_masked_secret`. -/
def hasMaskedSecret (c : WebhookConfig U) : Bool :=
  looksRedactedUrl c.url || c.headers.any fun h => h.2 = redacted

/-- The URL after a merge: the prior one when its masked form was submitted back. -/
def mergeUrl (c : WebhookConfig U) : Option (WebhookConfig U) → String
  | some prior => if c.url = redactUrl U prior.url then prior.url else c.url
  | none => c.url

/-- One header after a merge. -/
def mergeHeader (prior : Option (WebhookConfig U)) (h : String × String) :
    Except ConfigError (String × String) :=
  if h.2 ≠ redacted then .ok h
  else match prior.bind fun p => p.headers.lookup h.1 with
    | some v => .ok (h.1, v)
    | none => .error (.policy s!"header '{h.1}' is masked but there is no prior value to restore; re-enter it")

theorem eq_of_fields {c c' : WebhookConfig U}
    (hb : c.toDeliveryConfigBase = c'.toDeliveryConfigBase) (hu : c.url = c'.url)
    (hm : c.method = c'.method) (hh : c.headers = c'.headers)
    (hf : c.includeFields = c'.includeFields) : c = c' := by
  obtain ⟨b, url, method, headers, fields, _, _⟩ := c
  obtain ⟨b', url', method', headers', fields', _, _⟩ := c'
  dsimp only at hb hu hm hh hf
  subst hb hu hm hh hf
  rfl

theorem mergeUrl_valid (c : WebhookConfig U) (prior : Option (WebhookConfig U)) :
    urlError U (c.mergeUrl prior) = none := by
  cases prior with
  | none => exact c.url_valid
  | some p =>
    rw [mergeUrl]
    split_ifs
    · exact p.url_valid
    · exact c.url_valid

theorem mergeHeader_name {prior : Option (WebhookConfig U)} {h h' : String × String}
    (hm : mergeHeader prior h = .ok h') : h'.1 = h.1 := by
  rw [mergeHeader] at hm
  split_ifs at hm
  · rw [Except.ok.inj hm]
  · cases hl : prior.bind fun p => p.headers.lookup h.1 with
    | none =>
      rw [hl] at hm
      cases hm
    | some v =>
      rw [hl] at hm
      rw [← Except.ok.inj hm]

/-- The headers keep their names. -/
theorem mergeHeaders_names {prior : Option (WebhookConfig U)} {hs hs' : List (String × String)}
    (hm : hs.mapM (mergeHeader prior) = .ok hs') : hs'.map (·.1) = hs.map (·.1) := by
  have h := Except.mapM_eq_ok.mp hm
  clear hm
  induction h with
  | nil => rfl
  | cons hx _ ih => rw [List.map_cons, List.map_cons, ih, mergeHeader_name hx]

/-- `merge_preserving`; the prior config is none when it is not a webhook's. -/
def mergePreserving (c : WebhookConfig U) (prior : Option (WebhookConfig U)) :
    Except ConfigError (WebhookConfig U) :=
  match hm : c.headers.mapM (mergeHeader prior) with
  | .error e => .error e
  | .ok headers => .ok { c with
      url := c.mergeUrl prior
      headers := headers
      url_valid := c.mergeUrl_valid prior
      headers_nodup := by
        rw [mergeHeaders_names hm]
        exact c.headers_nodup }

/-! ## What is dumped and what is merged -/

theorem mergePreserving_eq_ok {c m : WebhookConfig U} {prior : Option (WebhookConfig U)} :
    c.mergePreserving prior = .ok m ↔
    c.headers.mapM (mergeHeader prior) = .ok m.headers ∧ m.url = c.mergeUrl prior ∧
      m.toDeliveryConfigBase = c.toDeliveryConfigBase ∧ m.method = c.method ∧
      m.includeFields = c.includeFields := by
  unfold mergePreserving
  split
  · rename_i e he
    simp [he]
  · rename_i headers he
    constructor
    · intro h
      obtain rfl := Except.ok.inj h
      exact ⟨he, rfl, rfl, rfl, rfl⟩
    · rintro ⟨h₁, h₂, h₃, h₄, h₅⟩
      have hh : headers = m.headers := Except.ok.inj (he.symm.trans h₁)
      exact congrArg Except.ok (eq_of_fields h₃.symm h₂.symm h₄.symm hh h₅.symm)

theorem readHeaders_map (hs : List (String × String)) :
    readHeaders V (.obj (hs.map fun (k, v) => (k, .str v))) = some hs := by
  rw [readHeaders]
  induction hs with
  | nil => rfl
  | cons h hs ih =>
    rw [List.map_cons, List.mapM_cons, ih]
    dsimp only
    rw [V.str_eq]
    rfl

/-- A blob with `c`'s other fields loads as `c` with that URL and those headers. -/
theorem modelValidate_dumpWith (c : WebhookConfig U) {url : String}
    {headers : List (String × String)} (hk : (headers.map (·.1)).Nodup)
    {s : WebhookConfig U} : modelValidate V (c.dumpWith url headers) = .ok s ↔
      s.url = url ∧ s.headers = headers ∧ urlError U url = none ∧
        s.toDeliveryConfigBase = c.toDeliveryConfigBase ∧ s.method = c.method ∧
        s.includeFields = c.includeFields := by
  have hc : readCadence (.str (cadenceName c.delivery)) = some c.delivery := by
    cases c.delivery <;> rfl
  have hmethod : readMethod (.str (methodName c.method)) = some c.method := by
    cases c.method <;> rfl
  simp only [modelValidate, dumpWith, field, Json.get?, List.find?_cons]
  simp [hc, hmethod, readInterval_num, V.str_eq, readStrings_map, readHeaders_map]
  split
  · rename_i message hu
    simp [hu]
  · rename_i hu
    rw [dif_pos hk, dif_pos c.digest_requires_interval, Except.ok.injEq]
    constructor
    · rintro rfl
      exact ⟨rfl, rfl, hu, rfl, rfl, rfl⟩
    · rintro ⟨h₁, h₂, -, h₄, h₅, h₆⟩
      exact eq_of_fields h₄.symm h₁.symm h₅.symm h₂.symm h₆.symm

/-- A dumped config loads as itself. -/
theorem modelValidate_modelDump (c : WebhookConfig U) : modelValidate V c.modelDump = .ok c :=
  (modelValidate_dumpWith V c c.headers_nodup).mpr ⟨rfl, rfl, c.url_valid, rfl, rfl, rfl⟩

theorem names_redacted (hs : List (String × String)) :
    (hs.map fun (k, _) => (k, redacted)).map (·.1) = hs.map (·.1) := by
  rw [List.map_map]
  rfl

/-- Every masked header of `c` is restored. -/
theorem mapM_mergeHeader (c : WebhookConfig U) :
    (c.headers.map fun (k, _) => (k, redacted)).mapM (mergeHeader (some c)) = .ok c.headers := by
  rw [Except.mapM_eq_ok, List.forall₂_map_left_iff, List.forall₂_same]
  rintro ⟨k, v⟩ hkv
  rw [mergeHeader, if_neg (not_not_intro rfl), Option.bind_some,
    Table.lookup_of_mem c.headers_nodup hkv]

/-- **Redaction is undone by a merge.** The masked form of a config, submitted back, merges with the
config to the config. -/
theorem restores {c s : WebhookConfig U} (h : modelValidate V c.redactedDump = .ok s) :
    s.mergePreserving (some c) = .ok c := by
  have hk : ((c.headers.map fun (k, _) => (k, redacted)).map (·.1)).Nodup := by
    rw [names_redacted]
    exact c.headers_nodup
  obtain ⟨hu, hh, -, hb, hm, hf⟩ := (modelValidate_dumpWith V c hk).mp h
  rw [mergePreserving_eq_ok, hh]
  exact ⟨mapM_mergeHeader c, by rw [mergeUrl, if_pos hu], hb.symm, hm.symm, hf.symm⟩

end WebhookConfig

end OpenMagpie
