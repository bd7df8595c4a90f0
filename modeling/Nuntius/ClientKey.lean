import Mathlib.Data.List.Forall2
import Nuntius.AddressText

/-!
# The rate-limit key of a request

The host keys its limiter on the client's address. Behind the load balancer that address is
taken from `X-Forwarded-For`, which the client can fill as it likes and to which every proxy
appends the address it was called from. The walk from the right passes the proxies and stops at
the client, so nothing that stands before it matters.

Python's `ipaddress` is a parameter.
-/

namespace Nuntius.PullApi

/-! ### Texts and addresses -/

/-- What `str.isspace` holds of. -/
def isSpace (c : Char) : Bool :=
  let n := c.toNat
  (0x9 ≤ n && n ≤ 0xd) || (0x1c ≤ n && n ≤ 0x20) || n == 0x85 || n == 0xa0 || n == 0x1680 ||
    (0x2000 ≤ n && n ≤ 0x200a) || n == 0x2028 || n == 0x2029 || n == 0x202f || n == 0x205f ||
    n == 0x3000

def strip (text : List Char) : List Char :=
  ((text.dropWhile isSpace).reverse.dropWhile isSpace).reverse

/-- The part of `ipaddress` that the host uses. A reader has no result where Python raises. -/
structure Ipaddress (Ip Net : Type) where
  ipAddress : List Char → Option Ip
  ipNetwork : (strict : Bool) → List Char → Option Net
  str : Ip → List Char
  contains : Net → Ip → Bool
  isPrivate : Ip → Bool
  isLoopback : Ip → Bool

inductive TrustMode where
  | leftmost
  | trustedChain
  deriving DecidableEq

structure Settings (Net : Type) where
  vpcCidr : Net
  trustedProxies : List Net

def Settings.trustMode {Net : Type} (settings : Settings Net) : TrustMode :=
  if settings.trustedProxies.isEmpty then .leftmost else .trustedChain

/-- The headers of a request: a message with its lines of the name `X-Forwarded-For`, or a
mapping without `get_all`. -/
inductive Headers where
  | message (lines : List (List Char))
  | mapping (single : Option (List Char))

def Headers.getAll : Headers → Option (List (List Char))
  | .message [] | .mapping _ => none
  | .message lines => some lines

def Headers.get : Headers → List Char
  | .message lines => lines.headD []
  | .mapping single => single.getD []

def Headers.values (headers : Headers) : List (List Char) :=
  match headers.getAll with
  | some values => values
  | none => if headers.get.isEmpty then [] else [headers.get]

/-- The entries of all lines from left to right, readable or not. -/
def Headers.tokens (headers : Headers) : List (List Char) :=
  headers.values.flatMap (·.splitOn ',')

section Host
variable {Ip Net : Type} (lib : Ipaddress Ip Net) (settings : Settings Net)

/-- `_parse_networks`. -/
def parseNetworks (raw : List Char) : List Net :=
  (raw.splitOn ',').filterMap fun token =>
    let token := strip token
    if token.isEmpty then none else lib.ipNetwork false token

def defaultTrustedProxies : List Char := "49.13.195.55/32,46.224.136.122/32".toList

/-- The settings of the environment, the default where a variable is unset or, for the address
range of the VPC, invalid. -/
def Settings.load (defaultCidr : Net) (vpcCidr trustedProxies : Option (List Char)) :
    Settings Net where
  vpcCidr := (vpcCidr.bind (lib.ipNetwork true)).getD defaultCidr
  trustedProxies := parseNetworks lib (trustedProxies.getD defaultTrustedProxies)

def readToken (token : List Char) : Option Ip :=
  let token := strip token
  -- a percent sign starts a scope id or an escape
  if token.isEmpty || token.contains '%' then none else lib.ipAddress token

def xffChain (headers : Headers) : List Ip :=
  headers.values.flatMap fun value => (value.splitOn ',').filterMap (readToken lib)

def isTrusted (ip : Ip) : Bool := settings.trustedProxies.any fun net => lib.contains net ip

def isInfrastructure (ip : Ip) : Bool :=
  isTrusted lib settings ip || lib.isPrivate ip || lib.isLoopback ip

def getClientIp (peerStr : List Char) (headers : Headers) : List Char :=
  match lib.ipAddress peerStr with
  | none => peerStr
  | some peer =>
    if !lib.contains settings.vpcCidr peer then lib.str peer
    else
      match xffChain lib headers with
      | [] => lib.str peer
      | first :: rest =>
        let chain := first :: rest
        match settings.trustMode with
        | .leftmost => lib.str first
        | .trustedChain =>
          match chain.reverse.find? fun ip => !isInfrastructure lib settings ip with
          | some ip => lib.str ip
          | none => lib.str (chain.getLast (List.cons_ne_nil first rest))

/-! ### The walk from the right -/

/-- The entries end with texts of the given addresses. -/
def Carries (headers : Headers) (before : List (List Char)) (chain : List Ip) : Prop :=
  ∃ entries, headers.tokens = before ++ entries ∧
    List.Forall₂ (fun token ip => readToken lib token = some ip) entries chain

theorem xffChain_eq_filterMap (headers : Headers) :
    xffChain lib headers = headers.tokens.filterMap (readToken lib) := by
  rw [xffChain, Headers.tokens, List.filterMap_flatMap]

variable {lib}

theorem filterMap_readToken {entries : List (List Char)} {chain : List Ip}
    (h : List.Forall₂ (fun token ip => readToken lib token = some ip) entries chain) :
    entries.filterMap (readToken lib) = chain := by
  induction h with
  | nil => rfl
  | cons head _ ih => rw [List.filterMap_cons_some head, ih]

/-- Whatever stands before, the chain ends with the addresses carried. -/
theorem Carries.xffChain {headers : Headers} {before : List (List Char)} {chain : List Ip}
    (h : Carries lib headers before chain) :
    xffChain lib headers = before.filterMap (readToken lib) ++ chain := by
  obtain ⟨entries, htokens, hread⟩ := h
  rw [xffChain_eq_filterMap, htokens, List.filterMap_append, filterMap_readToken hread]

variable {settings}

theorem find_client {client : Ip} {hops : List Ip} (before : List Ip)
    (hclient : isInfrastructure lib settings client = false)
    (hhops : ∀ hop ∈ hops, isInfrastructure lib settings hop = true) :
    (before ++ client :: hops).reverse.find? (fun ip => !isInfrastructure lib settings ip) =
      some client := by
  have hpassed : hops.reverse.find? (fun ip => !isInfrastructure lib settings ip) = none := by
    rw [List.find?_eq_none]
    intro hop hmem
    simp [hhops hop (List.mem_reverse.mp hmem)]
  rw [List.reverse_append, List.reverse_cons, List.append_assoc, List.find?_append, hpassed,
    Option.none_or, List.singleton_append, List.find?_cons_of_pos]
  simp [hclient]

theorem getClientIp_eq_client {peerStr : List Char} {peer client : Ip} {hops : List Ip}
    {before : List (List Char)} {headers : Headers} (mode : settings.trustMode = .trustedChain)
    (hpeer : lib.ipAddress peerStr = some peer) (hvpc : lib.contains settings.vpcCidr peer = true)
    (hclient : isInfrastructure lib settings client = false)
    (hhops : ∀ hop ∈ hops, isInfrastructure lib settings hop = true)
    (carries : Carries lib headers before (client :: hops)) :
    getClientIp lib settings peerStr headers = lib.str client := by
  have hfind := find_client (before.filterMap (readToken lib)) hclient hhops
  rw [← carries.xffChain] at hfind
  cases hchain : xffChain lib headers with
  | nil => simp [hchain] at hfind
  | cons first rest =>
    rw [hchain] at hfind
    simp only [getClientIp, hpeer, hvpc, hchain, mode, hfind, Bool.not_true, Bool.false_eq_true,
      if_false]

theorem getClientIp_of_outside {peerStr : List Char}
    (outside : ∀ peer, lib.ipAddress peerStr = some peer →
      lib.contains settings.vpcCidr peer = false) (headers₁ headers₂ : Headers) :
    getClientIp lib settings peerStr headers₁ = getClientIp lib settings peerStr headers₂ := by
  unfold getClientIp
  cases hpeer : lib.ipAddress peerStr with
  | none => rfl
  | some peer => simp only [outside peer hpeer, Bool.not_false, if_true]

/-- Behind the load balancer the key is the client's address, whatever the client wrote before it;
from outside the VPC the headers are not used. -/
theorem client_key_unforgeable (lib : Ipaddress Ip Net) (settings : Settings Net)
    (peerStr : List Char) :
    (∀ peer client hops before₁ before₂ headers₁ headers₂,
      settings.trustMode = .trustedChain → lib.ipAddress peerStr = some peer →
      lib.contains settings.vpcCidr peer = true → isInfrastructure lib settings client = false →
      (∀ hop ∈ hops, isInfrastructure lib settings hop = true) →
      Carries lib headers₁ before₁ (client :: hops) →
      Carries lib headers₂ before₂ (client :: hops) →
      getClientIp lib settings peerStr headers₁ = getClientIp lib settings peerStr headers₂ ∧
        getClientIp lib settings peerStr headers₁ = lib.str client) ∧
    ((∀ peer, lib.ipAddress peerStr = some peer → lib.contains settings.vpcCidr peer = false) →
      ∀ headers₁ headers₂, getClientIp lib settings peerStr headers₁ =
        getClientIp lib settings peerStr headers₂) := by
  constructor
  · intro peer client hops before₁ before₂ headers₁ headers₂ mode hpeer hvpc hclient hhops h₁ h₂
    have hkey₁ := getClientIp_eq_client mode hpeer hvpc hclient hhops h₁
    have hkey₂ := getClientIp_eq_client mode hpeer hvpc hclient hhops h₂
    exact ⟨hkey₁.trans hkey₂.symm, hkey₁⟩
  · exact getClientIp_of_outside

end Host

section Demo
open AddressText

def octets : IpAddr → List UInt8
  | .v4 ip => [ip.a, ip.b, ip.c, ip.d]
  | .v6 _ => []

/-- IPv4 alone, with networks given by their first octets. -/
def demoIpaddress : Ipaddress IpAddr (List UInt8) where
  ipAddress := parseIpAddr
  ipNetwork _ _ := none
  str
    | .v4 ip => printIpv4Addr ip
    | .v6 ip => printIpv6Addr ip
  contains net ip := net.isPrefixOf (octets ip)
  isPrivate ip := [[10], [192, 168], [172, 18]].any fun net => net.isPrefixOf (octets ip)
  isLoopback ip := [127].isPrefixOf (octets ip)

def demoSettings : Settings (List UInt8) := ⟨[10, 0], [[49, 13, 195, 55]]⟩

/-- Two clients' tricks before one address and two proxies: a forged address, and lines with an
escape, an empty entry and a forged proxy. -/
def forgedOnce : Headers :=
  .message ["1.1.1.1, 93.184.216.34, 172.18.0.7, 49.13.195.55".toList]
def forgedTwice : Headers :=
  .message ["8.8.8.8%25, 49.13.195.55".toList, ",93.184.216.34".toList,
    "172.18.0.7,49.13.195.55".toList]

def demoClient : IpAddr := .v4 ⟨93, 184, 216, 34⟩
def demoHops : List IpAddr := [.v4 ⟨172, 18, 0, 7⟩, .v4 ⟨49, 13, 195, 55⟩]

theorem client_key_unforgeable_demo :
    getClientIp demoIpaddress demoSettings "10.0.1.5".toList forgedOnce =
        getClientIp demoIpaddress demoSettings "10.0.1.5".toList forgedTwice ∧
      getClientIp demoIpaddress demoSettings "10.0.1.5".toList forgedOnce =
        "93.184.216.34".toList ∧
      getClientIp demoIpaddress demoSettings "203.0.113.5".toList forgedOnce =
        getClientIp demoIpaddress demoSettings "203.0.113.5".toList forgedTwice := by
  have hinside := (client_key_unforgeable demoIpaddress demoSettings "10.0.1.5".toList).1
    (.v4 ⟨10, 0, 1, 5⟩) demoClient demoHops ["1.1.1.1".toList]
    ["8.8.8.8%25".toList, " 49.13.195.55".toList, []] forgedOnce forgedTwice
    (by decide) (by decide) (by decide) (by decide) (by decide)
    ⟨[" 93.184.216.34".toList, " 172.18.0.7".toList, " 49.13.195.55".toList], by decide,
      .cons (by decide) (.cons (by decide) (.cons (by decide) .nil))⟩
    ⟨["93.184.216.34".toList, "172.18.0.7".toList, "49.13.195.55".toList], by decide,
      .cons (by decide) (.cons (by decide) (.cons (by decide) .nil))⟩
  have houtside := (client_key_unforgeable demoIpaddress demoSettings "203.0.113.5".toList).2
  have hpeer : demoIpaddress.ipAddress "203.0.113.5".toList = some (.v4 ⟨203, 0, 113, 5⟩) := by
    decide
  refine ⟨hinside.1, hinside.2.trans (by decide), houtside (fun peer h => ?_) _ _⟩
  cases hpeer.symm.trans h
  decide

end Demo

end Nuntius.PullApi
