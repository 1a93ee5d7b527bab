import Mathlib.Data.List.Basic

/-!
# Splitting URLs

`urlsplit` as Python's `urllib.parse` defines it: scheme and network location of a URL, and the host
and port in it. The path, the query and the fragment follow the network location and play no part
here.

* `Unicode`: case mapping and compatibility normalization, which the splitting calls.
* `isIpv4`, `isIpv6`: the address literals, as `ipaddress` accepts them.
* `urlsplit`: the split, none when it raises; `SplitResult.hostname`, `SplitResult.port`.
-/

set_option autoImplicit false

namespace Url

/-- What the splitting asks of the character database. -/
structure Unicode where
  lower : List Char → List Char
  nfkc : List Char → List Char

/-! ## Pieces of a string -/

/-- `str.partition`: before the first `c`, and after it when it occurs. -/
def partition (c : Char) (s : List Char) : List Char × Option (List Char) :=
  (s.takeWhile (· ≠ c), (s.dropWhile (· ≠ c)).tail?)

/-- The last part of `str.rpartition`: after the last `c`, or all of it. -/
def afterLast (c : Char) (s : List Char) : List Char := (s.reverse.takeWhile (· ≠ c)).reverse

/-- `str.split`. -/
def split (c : Char) : List Char → List (List Char)
  | [] => [[]]
  | x :: s =>
    if x = c then [] :: split c s
    else match split c s with
      | [] => [[x]]
      | p :: ps => (x :: p) :: ps

def isHexDigit (c : Char) : Bool :=
  c.isDigit || ('a' ≤ c && c ≤ 'f') || ('A' ≤ c && c ≤ 'F')

/-- The value of a string of decimal digits. -/
def decimal (s : List Char) : ℕ := s.foldl (fun n c => 10 * n + (c.toNat - '0'.toNat)) 0

/-! ## Address literals -/

/-- `IPv4Address._parse_octet` accepts. -/
def isOctet (s : List Char) : Bool :=
  s ≠ [] && s.all Char.isDigit && s.length ≤ 3 && (s = ['0'] || s.head? ≠ some '0') &&
    decimal s ≤ 255

/-- `IPv4Address` accepts. -/
def isIpv4 (s : List Char) : Bool :=
  let octets := split '.' s
  octets.length = 4 && octets.all isOctet

/-- `IPv6Address._parse_hextet` accepts. -/
def isHextet (s : List Char) : Bool := s ≠ [] && s.all isHexDigit && s.length ≤ 4

/-- The hextets around the one `::` of an address: `hi` before it and `lo` after it. -/
def isCompressed (hi lo : List (List Char)) : Bool :=
  -- an empty end belongs to the `::` or is a stray colon
  let hi' := if hi.head? = some [] then hi.tail else hi
  let lo' := if lo.getLast? = some [] then lo.dropLast else lo
  (hi'.length = hi.length || hi' = []) && (lo'.length = lo.length || lo' = []) &&
    hi'.length + lo'.length < 8 && hi'.all isHextet && lo'.all isHextet

/-- `IPv6Address._ip_int_from_string` accepts. -/
def isIpv6Parts (parts : List (List Char)) : Bool :=
  if parts.length < 3 then false
  else
    -- a dotted suffix stands for two hextets
    let last := parts.getLastD []
    let dotted := last.contains '.'
    let parts := if dotted then parts.dropLast ++ [['0'], ['0']] else parts
    let inner := (parts.drop 1).dropLast
    (!dotted || isIpv4 last) && parts.length ≤ 9 &&
      match inner.count [] with
      | 0 => parts.length = 8 && parts.all isHextet
      | 1 =>
        let i := inner.idxOf [] + 1
        isCompressed (parts.take i) (parts.drop (i + 1))
      | _ => false

/-- `IPv6Address` accepts, with or without a zone. -/
def isIpv6 (s : List Char) : Bool :=
  !s.contains '/' &&
    match partition '%' s with
    | (addr, none) => isIpv6Parts (split ':' addr)
    | (addr, some zone) => zone ≠ [] && !zone.contains '%' && isIpv6Parts (split ':' addr)

/-! ## The split -/

/-- `SplitResult`: scheme and network location. -/
structure SplitResult where
  scheme : List Char
  netloc : List Char
  deriving DecidableEq

/-- `scheme_chars`. -/
def isSchemeChar (c : Char) : Bool := c.isAlphanum || c = '+' || c = '-' || c = '.'

/-- `_check_bracketed_host` passes: an IPvFuture address or an IPv6 address. -/
def checkBracketedHost (hostname : List Char) : Bool :=
  if hostname.head? = some 'v' then
    match partition '.' hostname.tail with
    | (version, some rest) =>
      version ≠ [] && version.all isHexDigit && rest ≠ [] && !rest.contains '\n'
    | (_, none) => false
  else isIpv6 hostname

/-- `_check_bracketed_netloc` passes. -/
def checkBracketedNetloc (netloc : List Char) : Bool :=
  match partition '[' (afterLast '@' netloc) with
  | (before, some bracketed) =>
    let (hostname, port) := partition ']' bracketed
    before = [] && (port.getD [] = [] || (port.getD []).head? = some ':') &&
      checkBracketedHost hostname
  | (hostinfo, none) => checkBracketedHost (partition ':' hostinfo).1

/-- `_checknetloc` passes: normalization makes no delimiter appear. -/
def checkNetloc (U : Unicode) (netloc : List Char) : Bool :=
  if netloc.all (·.toNat < 128) then true
  else
    let n := netloc.filter fun c => c ≠ '@' && c ≠ ':' && c ≠ '#' && c ≠ '?'
    n = U.nfkc n || (U.nfkc n).all fun c =>
      c ≠ '/' && c ≠ '?' && c ≠ '#' && c ≠ '@' && c ≠ ':'

/-- `urlsplit`, none where it raises. -/
def urlsplit (U : Unicode) (url : List Char) : Option SplitResult :=
  let url := (url.dropWhile (·.toNat ≤ 32)).filter fun c => c ≠ '\t' && c ≠ '\r' && c ≠ '\n'
  let (scheme, rest) := match partition ':' url with
    | (s, some rest) =>
      if (s.head?.any Char.isAlpha) && s.all isSchemeChar then (s.map Char.toLower, rest)
      else ([], url)
    | (_, none) => ([], url)
  match rest with
  | '/' :: '/' :: rest =>
    let netloc := rest.takeWhile fun c => c ≠ '/' && c ≠ '?' && c ≠ '#'
    if netloc.contains '[' ≠ netloc.contains ']' then none
    else if netloc.contains '[' && !checkBracketedNetloc netloc then none
    else if checkNetloc U netloc then some ⟨scheme, netloc⟩ else none
  | _ => some ⟨scheme, []⟩

namespace SplitResult

/-- `_hostinfo`: the host without its brackets, and the port's text if there is one. -/
def hostinfo (r : SplitResult) : List Char × Option (List Char) :=
  let hostinfo := afterLast '@' r.netloc
  let (hostname, port) := match partition '[' hostinfo with
    | (_, some bracketed) =>
      let (hostname, rest) := partition ']' bracketed
      (hostname, ((partition ':' (rest.getD [])).2).getD [])
    | (_, none) => ((partition ':' hostinfo).1, ((partition ':' hostinfo).2).getD [])
  (hostname, if port = [] then none else some port)

/-- `hostname`: lower case up to the zone; none when there is none. -/
def hostname (U : Unicode) (r : SplitResult) : Option (List Char) :=
  match r.hostinfo.1 with
  | [] => none
  | host =>
    match partition '%' host with
    | (name, none) => some (U.lower name)
    | (name, some zone) => some (U.lower name ++ '%' :: zone)

/-- `port`: none where the access raises. -/
def port (r : SplitResult) : Option (Option ℕ) :=
  match r.hostinfo.2 with
  | none => some none
  | some s => if s.all Char.isDigit && decimal s ≤ 65535 then some (some (decimal s)) else none

end SplitResult

end Url
