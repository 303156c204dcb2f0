import BebaCtrl.Lib.Bytes
import BebaCtrl.Lib.Python

/-!
# Routes and path attributes

The data of an UPDATE message: network layer reachability information of the known route families
and the path attributes. Addresses are kept as the bytes they stand for; their text form is one to
one with these.
-/

namespace BebaCtrl.Bgp

/-! ## Route families -/

structure RouteFamily where
  afi : Nat
  safi : Nat
  deriving DecidableEq, Repr

def afiIP : Nat := 1
def afiIP6 : Nat := 2

def rfIPv4UC : RouteFamily := ⟨afiIP, 1⟩
def rfIPv6UC : RouteFamily := ⟨afiIP6, 1⟩
def rfIPv4VPN : RouteFamily := ⟨afiIP, 128⟩
def rfIPv6VPN : RouteFamily := ⟨afiIP6, 128⟩
def rfIPv4MPLS : RouteFamily := ⟨afiIP, 4⟩
def rfIPv6MPLS : RouteFamily := ⟨afiIP6, 4⟩
def rfRTCUC : RouteFamily := ⟨afiIP, 132⟩

/-- The values of `_rf_map`. -/
def rfMap : List RouteFamily :=
  [rfIPv4UC, rfIPv6UC, rfIPv4VPN, rfIPv6VPN, rfIPv4MPLS, rfIPv6MPLS, rfRTCUC]

def supportedGlobalRf : List RouteFamily := [rfIPv4UC, rfIPv6UC, rfIPv4VPN, rfRTCUC, rfIPv6VPN]

/-! ## Reachability information -/

inductive RouteDistinguisher where
  | twoOctetAs (admin assigned : Nat)
  | ipv4Address (admin : Bytes) (assigned : Nat)
  | fourOctetAs (admin assigned : Nat)
  deriving DecidableEq, Repr

/-- A route target, by its administrator and its number. -/
inductive RouteTarget where
  | ofAs (asNumber localAdministrator : Nat)
  | ofAddr (addr : Bytes) (localAdministrator : Nat)
  deriving DecidableEq, Repr

/-- `RouteTargetMembershipNLRI.DEFAULT_RT` -/
def defaultRt : RouteTarget := .ofAs 0 0

/-- A route; `length` is the number of bits on the wire, labels and distinguisher included. -/
inductive Nlri where
  | ip (length : Nat) (addr : Bytes)
  | ip6 (length : Nat) (addr : Bytes)
  | labelledIp (length : Nat) (labels : List Nat) (addr : Bytes)
  | labelledIp6 (length : Nat) (labels : List Nat) (addr : Bytes)
  | vpnIp (length : Nat) (labels : List Nat) (routeDist : RouteDistinguisher) (addr : Bytes)
  | vpnIp6 (length : Nat) (labels : List Nat) (routeDist : RouteDistinguisher) (addr : Bytes)
  | rtc (originAs : Nat) (routeTarget : RouteTarget)
  | bin (length : Nat) (addr : Bytes)
  deriving DecidableEq, Repr

/-- `ROUTE_FAMILY`, which the class for unknown families does not have. -/
def Nlri.routeFamily : Nlri → Option RouteFamily
  | .ip _ _ => some rfIPv4UC
  | .ip6 _ _ => some rfIPv6UC
  | .labelledIp _ _ _ => some rfIPv4MPLS
  | .labelledIp6 _ _ _ => some rfIPv6MPLS
  | .vpnIp _ _ _ _ => some rfIPv4VPN
  | .vpnIp6 _ _ _ _ => some rfIPv6VPN
  | .rtc _ _ => some rfRTCUC
  | .bin _ _ => none

/-! ## Path attributes -/

inductive AsSegment where
  | asSet (l : List Nat)
  | asSequence (l : List Nat)
  deriving DecidableEq, Repr

def AsSegment.numbers : AsSegment → List Nat
  | .asSet l | .asSequence l => l

/-- A set counts as one. -/
def getAsPathLen (value : List AsSegment) : Nat :=
  (value.map fun
    | .asSequence l => l.length
    | .asSet _ => 1).sum

def hasLocalAs (value : List AsSegment) (localAs : Nat) : Bool :=
  value.any fun seg => seg.numbers.contains localAs

/-- Is the leftmost AS number the given one? A set cannot be indexed. -/
def hasMatchingLeftmost (value : List AsSegment) (remoteAs : Nat) : PyResult Bool :=
  if remoteAs = 0 then .ok false
  else
    match value with
    | .asSequence (asNum :: _) :: _ => .ok (asNum == remoteAs)
    | .asSet (_ :: _) :: _ => .error .typeError
    | _ => .ok false

inductive ExtendedCommunity where
  | twoOctetAs (type subtype asNumber localAdministrator : Nat)
  | ipv4Address (type subtype : Nat) (addr : Bytes) (localAdministrator : Nat)
  | fourOctetAs (type subtype asNumber localAdministrator : Nat)
  | raw (type : Nat) (value : Bytes)
  deriving DecidableEq, Repr

/-- `_community_list(2)` -/
def rtList (communities : List ExtendedCommunity) : List RouteTarget :=
  communities.filterMap fun
    | .twoOctetAs type subtype asNumber loc | .fourOctetAs type subtype asNumber loc =>
      if subtype = 2 ∧ (type = 0 ∨ type = 2) then some (.ofAs asNumber loc) else none
    | .ipv4Address type subtype addr loc =>
      if subtype = 2 ∧ type = 1 then some (.ofAddr addr loc) else none
    | .raw _ _ => none

inductive AttrValue where
  | origin (value : Nat)
  | asPath (value : List AsSegment)
  | nextHop (value : Bytes)
  | multiExitDisc (value : Nat)
  | localPref (value : Nat)
  | atomicAggregate
  | aggregator (asNumber : Nat) (addr : Bytes)
  | communities (communities : List Nat)
  | originatorId (value : Bytes)
  | clusterList (value : List Bytes)
  | mpReachNlri (afi safi : Nat) (nextHop : Bytes) (nlri : List Nlri)
  | mpUnreachNlri (afi safi : Nat) (withdrawnRoutes : List Nlri)
  | extendedCommunities (communities : List ExtendedCommunity)
  | as4Path (value : List AsSegment)
  | as4Aggregator (asNumber : Nat) (addr : Bytes)
  | unknown (type : Nat) (value : Bytes)
  deriving DecidableEq, Repr

/-- The well-known communities. -/
def noExport : Nat := 0xffffff01
def noAdvertise : Nat := 0xffffff02
def noExportSubconfed : Nat := 0xffffff03

/-- The attributes of a path or an UPDATE by type, as far as they are looked up. -/
structure PathAttrMap where
  origin : Option Nat := none
  asPath : Option (List AsSegment) := none
  nextHop : Option Bytes := none
  multiExitDisc : Option Nat := none
  localPref : Option Nat := none
  communities : Option (List Nat) := none
  extendedCommunities : Option (List ExtendedCommunity) := none
  mpReachNlri : Option (Nat × Nat × Bytes × List Nlri) := none
  mpUnreachNlri : Option (Nat × Nat × List Nlri) := none
  deriving DecidableEq, Repr

namespace PathAttrMap

/-- `_pathattr_map[attr.type] = attr` -/
def set (map : PathAttrMap) : AttrValue → PathAttrMap
  | .origin v => { map with origin := some v }
  | .asPath v => { map with asPath := some v }
  | .nextHop v => { map with nextHop := some v }
  | .multiExitDisc v => { map with multiExitDisc := some v }
  | .localPref v => { map with localPref := some v }
  | .communities cs => { map with communities := some cs }
  | .extendedCommunities cs => { map with extendedCommunities := some cs }
  | .mpReachNlri afi safi nextHop nlri =>
      { map with mpReachNlri := some (afi, safi, nextHop, nlri) }
  | .mpUnreachNlri afi safi routes => { map with mpUnreachNlri := some (afi, safi, routes) }
  | _ => map

def ofAttributes (attrs : List AttrValue) : PathAttrMap := attrs.foldl set {}

end PathAttrMap

end BebaCtrl.Bgp
