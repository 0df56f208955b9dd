import Federlet.World

/-! URLs as `urllib.parse` splits them, the classification of addresses and the
guard every manifest fetch passes first. -/

namespace Federlet

structure SplitResult where
  scheme : List Char
  netloc : List Char

def schemeChar (c : Char) : Bool :=
  decide (c.isAlphanum = true ∨ c = '+' ∨ c = '-' ∨ c = '.')

def splitScheme (url : List Char) : List Char × List Char :=
  let scheme := url.takeWhile (· ≠ ':')
  if ':' ∈ url ∧ (scheme.head?.any Char.isAlpha && scheme.all schemeChar) then
    (scheme.map Char.toLower, url.drop (scheme.length + 1))
  else ([], url)

/-- `urlsplit`, as far as the scheme and the authority go. -/
def urlsplit (P : Platform) (url : String) : Except Exc SplitResult :=
  let url := (url.toList.dropWhile (fun c => c.toNat ≤ 32)).filter
    (fun c => c ≠ '\t' ∧ c ≠ '\r' ∧ c ≠ '\n')
  let (scheme, rest) := splitScheme url
  match rest with
  | '/' :: '/' :: rest =>
    let netloc := rest.takeWhile (fun c => c ≠ '/' ∧ c ≠ '?' ∧ c ≠ '#')
    if decide ('[' ∈ netloc) ≠ decide (']' ∈ netloc) then .error .valueError
    else if P.netlocAccepted (String.ofList netloc) then .ok ⟨scheme, netloc⟩
    else .error .valueError
  | _ => .ok ⟨scheme, []⟩

/-- What follows the last occurrence of a character, or everything. -/
def afterLast (c : Char) (s : List Char) : List Char := (s.reverse.takeWhile (· ≠ c)).reverse

/-- `SplitResult.hostname`; Python's `None` is the empty string, which every
caller treats alike. -/
def SplitResult.hostname (P : Platform) (r : SplitResult) : String :=
  let hostinfo := afterLast '@' r.netloc
  let host :=
    if '[' ∈ hostinfo then ((hostinfo.dropWhile (· ≠ '[')).drop 1).takeWhile (· ≠ ']')
    else hostinfo.takeWhile (· ≠ ':')
  let name := host.takeWhile (· ≠ '%')
  P.lower (String.ofList name) ++ String.ofList (host.drop name.length)

def rstripDots (s : String) : String :=
  String.ofList (s.toList.reverse.dropWhile (· = '.')).reverse

def isDisallowedIp (ip : IpAddress) : Bool :=
  ip.isPrivate || ip.isLoopback || ip.isLinkLocal || ip.isReserved

def checkAddresses (P : Platform) : List String → Except Exc Unit
  | [] => .ok ()
  | address :: rest =>
    match P.ipAddress address with
    | none => .error .valueError
    | some ip => if isDisallowedIp ip then .error .ssrfError else checkAddresses P rest

def assertPublicHost (P : Platform) (o : Origin) (url : String) (allowPrivate : Bool) :
    Py Unit := do
  let parsed ← raising (urlsplit P url)
  let host := parsed.hostname P
  if host = "" then throw .ssrfError
  if allowPrivate then return
  let addresses ← getaddrinfo o host
  raising (checkAddresses P addresses)

end Federlet
