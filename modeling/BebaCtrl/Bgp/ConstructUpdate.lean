import BebaCtrl.Bgp.Packet
import BebaCtrl.Lib.Heap

/-!
# Building an UPDATE for a peer

`Peer._construct_update` takes the attributes of a path and makes those of an UPDATE from them. The
map of the path is copied, but its attributes are not: some are put into the UPDATE as they are, the
AS path is copied deeply before the own AS number goes into it, and the list of extended communities
is the path's own list, to which the sites of origin of the neighbour are added.

So the lists inside of attributes are objects of a heap here. `updateFor` is the same computation on
values, and says what the UPDATE for a peer is by the attributes at the time it is built.
-/

namespace BebaCtrl.Bgp.ConstructUpdate

open List Function PyM

/-! ## Attributes and the lists they hold -/

/-- An attribute without a list that is copied or written to. -/
def isPlain : AttrValue → Bool
  | .asPath _ | .extendedCommunities _ => false
  | _ => true

/-- A path attribute whose AS path is an `S` and whose extended communities are a `C`: references to
objects, or the lists themselves. -/
inductive Attr (S C : Type) where
  | asPath (flags : Nat) (value : S)
  | extendedCommunities (flags : Nat) (communities : C)
  | other (flags : Nat) (value : AttrValue) (plain : isPlain value = true)
  deriving DecidableEq

namespace Attr

variable {S C S' C' : Type}

def type : Attr S C → Nat
  | .asPath _ _ => 2
  | .extendedCommunities _ _ => 16
  | .other _ value _ => Wire.attrType value

def map (f : S → S') (g : C → C') : Attr S C → Attr S' C'
  | .asPath flags value => .asPath flags (f value)
  | .extendedCommunities flags communities => .extendedCommunities flags (g communities)
  | .other flags value plain => .other flags value plain

def asPath? : Attr S C → Option S
  | .asPath _ value => some value
  | _ => none

def communities? : Attr S C → Option C
  | .extendedCommunities _ communities => some communities
  | _ => none

/-- The test of `get_unknown_opttrans_attr`. -/
def isUnknownOpttrans : Attr S C → Bool
  | .other flags (.unknown _ _) _ => flags &&& (0x80 ||| 0x40) != 0
  | .other _ (.as4Path _) _ | .other _ (.as4Aggregator _ _) _ => true
  | _ => false

end Attr

section Attrs

variable {S C : Type} (attrs : List (Attr S C))

/-- `pathattr_map.get(type)` -/
def getAttr (type : Nat) : Option (Attr S C) := attrs.find? fun attr => attr.type == type

def getAsPath : Option S := attrs.findSome? Attr.asPath?

def getCommunities : Option C := attrs.findSome? Attr.communities?

def getUnknownOpttransAttr : List (Attr S C) := attrs.filter Attr.isUnknownOpttrans

end Attrs

structure Update (S C : Type) where
  withdrawnRoutes : List Nlri := []
  pathAttributes : List (Attr S C) := []
  nlri : List Nlri := []
  deriving DecidableEq

/-- The lists that are held by attributes. An AS path is a list of segments, which are lists
themselves; the same segment is not twice in a list. -/
structure Heap where
  segments : Store AsSegment
  segLists : Store (List Ref)
  communities : Store (List ExtendedCommunity)

namespace Heap

/-- The order is that of the AS paths. What becomes of the lists of communities is said apart. -/
instance : Preorder Heap := Preorder.lift fun heap => (heap.segments, heap.segLists)

/-- The segments of the list at `r`. -/
def readSegs (heap : Heap) (r : Ref) : List AsSegment :=
  (heap.segLists.read r).map heap.segments.read

def readAttr (heap : Heap) : Attr Ref Ref → Attr (List AsSegment) (List ExtendedCommunity) :=
  Attr.map heap.readSegs heap.communities.read

def readUpdate (heap : Heap) (update : Update Ref Ref) :
    Update (List AsSegment) (List ExtendedCommunity) where
  withdrawnRoutes := update.withdrawnRoutes
  pathAttributes := update.pathAttributes.map heap.readAttr
  nlri := update.nlri

end Heap

/-! ## Paths -/

/-- A path of one of the global tables. -/
structure RoutePath where
  /-- `ROUTE_FAMILY` of the class -/
  routeFamily : RouteFamily
  /-- is the source `None`? -/
  isLocal : Bool
  nlri : Nlri
  pathAttrMap : List (Attr Ref Ref)
  nexthop : Bytes
  isWithdraw : Bool
  supported : routeFamily ∈ supportedGlobalRf
  routeFamily_nlri : nlri.routeFamily = some routeFamily

namespace RoutePath

def isIpv4Path (path : RoutePath) : Bool := path.routeFamily = rfIPv4UC

def hasNexthop (path : RoutePath) : Bool :=
  !(path.nexthop.isEmpty || path.nexthop == zeros 4 || path.nexthop == zeros 16)

/-- The attributes of a path. -/
def attrs (path : RoutePath) (heap : Heap) :
    List (Attr (List AsSegment) (List ExtendedCommunity)) := path.pathAttrMap.map heap.readAttr

/-- The objects of the AS path are in the heap. -/
def In (path : RoutePath) (heap : Heap) : Prop :=
  ∀ flags value, .asPath flags value ∈ path.pathAttrMap → value < heap.segLists.next ∧
    ∀ r ∈ heap.segLists.read value, r < heap.segments.next

end RoutePath

/-! ## Attribute maps -/

/-- `netaddr.IPNetwork`, with the bits behind the prefix as they were given. -/
structure IPNetwork where
  addr : Bytes
  prefixlen : Nat
  deriving DecidableEq, Repr

/-- The network has the address in it. -/
def IPNetwork.covers (net : IPNetwork) (addr : Bytes) : Bool :=
  let shiftwidth := 8 * net.addr.length - net.prefixlen
  net.addr.length == addr.length &&
    (beDecode net.addr >>> shiftwidth == beDecode addr >>> shiftwidth)

/-- What the code uses of `netaddr`, and what is assumed of it. -/
class Netaddr where
  /-- `IPNetwork('addr/masklen')` -/
  ipNetwork (addr : Bytes) (masklen : Int) : PyResult IPNetwork
  /-- `other in net` -/
  contains (net other : IPNetwork) : Bool
  /-- `IPAddress(addr).ipv6()` -/
  ipv6 (addr : Bytes) : Bytes
  ipNetwork_eq_ok_iff : ∀ addr masklen net, ipNetwork addr masklen = .ok net ↔
    0 ≤ masklen ∧ masklen ≤ 8 * addr.length ∧ net = ⟨addr, masklen.toNat⟩
  contains_iff : ∀ net other, contains net other = true ↔
    net.covers other.addr ∧ net.prefixlen ≤ other.prefixlen

section

variable [Netaddr]

/-- The `length` of a route and the network of its `prefix`. In a VPN route, the labels count as
one, however many they are. -/
def lengthAndNetwork : Nlri → PyResult (Nat × IPNetwork)
  | .ip length addr | .ip6 length addr => do
    let net ← Netaddr.ipNetwork addr length
    return (length, net)
  | .vpnIp length _ _ addr | .vpnIp6 length _ _ addr => do
    let net ← Netaddr.ipNetwork addr (length - 64 - 24)
    return (length, net)
  | _ => .error .attributeError

structure PrefixFilter where
  network : IPNetwork
  policy : Nat
  ge : Option Nat
  le : Option Nat
  deriving DecidableEq, Repr

/-- A bound of 0 is not `None`, and not true either. -/
def PrefixFilter.evaluate (f : PrefixFilter) (nlri : Nlri) : PyResult (Nat × Bool) := do
  let (length, net) ← lengthAndNetwork nlri
  let inBounds :=
    match f.ge, f.le with
    | none, none => true
    | none, some le => le != 0 && decide (length ≤ le)
    | some ge, none => ge != 0 && decide (ge ≤ length)
    | some ge, some le => ge != 0 && le != 0 && decide (ge ≤ length) && decide (length ≤ le)
  return (f.policy, Netaddr.contains f.network net && inBounds)

def policyTop : Nat := 2
def policyEnd : Nat := 3
def policyInclude : Nat := 4
def policyNotInclude : Nat := 5

structure ASPathFilter where
  asNumber : Nat
  policy : Nat
  deriving DecidableEq, Repr

namespace ASPathFilter

/-- Is the first or the last number of a segment the given one? A set cannot be indexed. -/
def atEnd (f : ASPathFilter) (pathSeg : AsSegment) (pick : List Nat → Option Nat) : PyResult Bool :=
  match pathSeg with
  | .asSequence l => .ok (pick l == some f.asNumber)
  | .asSet l => if l = [] then .ok false else .error .typeError

/-- Only the first segment counts. -/
def evaluate (f : ASPathFilter) (pathSegList : List AsSegment) : PyResult (Nat × Bool) := do
  let pathSeg := pathSegList.headD (.asSequence [])
  let result ←
    if f.policy = policyTop then f.atEnd pathSeg head?
    else if f.policy = policyInclude then .ok (pathSeg.numbers.contains f.asNumber)
    else if f.policy = policyEnd then f.atEnd pathSeg getLast?
    else if f.policy = policyNotInclude then .ok (!pathSeg.numbers.contains f.asNumber)
    else .ok false
  return (f.policy, result)

end ASPathFilter

inductive Filter where
  | prefixFilter (f : PrefixFilter)
  | asPathFilter (f : ASPathFilter)
  deriving DecidableEq, Repr

/-- Maps of the type `ATTR_LOCAL_PREF`, the only one that is looked up. -/
structure AttributeMap where
  filters : List Filter
  attrValue : Nat
  deriving DecidableEq, Repr

section Lookup

variable {m : Type → Type} [Monad m] (eval : Filter → m (Nat × Bool))

/-- The filters are tried until one of them does not match. -/
def evaluateFilters (res : Option Nat × Bool) : List Filter → m (Option Nat × Bool)
  | [] => pure res
  | f :: filters => do
    let (cause, result) ← eval f
    if result then evaluateFilters (some cause, result) filters else pure (some cause, result)

def AttributeMap.evaluate (map : AttributeMap) : m (Option Nat × Bool) :=
  evaluateFilters eval (none, false) map.filters

/-- The local preference of the first map that matches. -/
def lookupAttributeMap : List AttributeMap → m (Option Nat)
  | [] => pure none
  | map :: maps => do
    let (_, result) ← map.evaluate eval
    if result then pure (some map.attrValue) else lookupAttributeMap maps

end Lookup

/-! ## The configuration of a peer -/

/-- A text of two parts such as a route distinguisher. Those of an AS number read alike, whatever
its size. -/
def formattedStr : RouteDistinguisher → RouteTarget
  | .twoOctetAs admin assigned | .fourOctetAs admin assigned => .ofAs admin assigned
  | .ipv4Address admin assigned => .ofAddr admin assigned

/-- The label of a set of attribute maps: `default`, or the route distinguisher and the family of a
VRF. -/
inductive MapKey where
  | default
  | vrf (routeDist : RouteTarget) (ipv6 : Bool)
  deriving DecidableEq, Repr

/-- A site of origin as it is configured. Behind an address, the second part is not checked to be a
number. -/
inductive Soo where
  | ofAs (first second : Nat)
  | ofAddr (first : Bytes) (second : Option Nat)
  deriving DecidableEq, Repr

def Soo.community : Soo → PyResult ExtendedCommunity
  | .ofAs first second => .ok (.twoOctetAs 0 3 first second)
  | .ofAddr first (some second) => .ok (.ipv4Address 1 3 first second)
  | .ofAddr _ none => .error .valueError

structure PeerConf where
  /-- `_common_conf.local_as` -/
  localAs : Nat
  /-- `_core_service.asn` -/
  asn : Nat
  remoteAs : Nat
  isRouteServerClient : Bool
  nextHop : Option Bytes
  hostBindIp : Bytes
  isNextHopSelf : Bool
  multiExitDisc : Option Nat
  sooList : List Soo
  attributeMaps : List (MapKey × List AttributeMap)
  deriving DecidableEq, Repr

namespace PeerConf

def isEbgpPeer (peer : PeerConf) : Bool := peer.localAs != peer.remoteAs

def sessionNextHop (peer : PeerConf) (path : RoutePath) : Bytes :=
  let nextHop := peer.nextHop.getD peer.hostBindIp
  if path.routeFamily = rfIPv6VPN then Netaddr.ipv6 nextHop else nextHop

def nextHopFor (peer : PeerConf) (path : RoutePath) : Bytes :=
  if peer.isEbgpPeer then
    if path.isLocal ∧ path.hasNexthop then path.nexthop else peer.sessionNextHop path
  else if peer.isNextHopSelf then peer.sessionNextHop path
  else path.nexthop

/-- The attribute maps for the family of a path. -/
def mapsFor (peer : PeerConf) (path : RoutePath) : List AttributeMap :=
  let key :=
    match path.nlri with
    | .vpnIp _ _ routeDist _ => .vrf (formattedStr routeDist) false
    | .vpnIp6 _ _ routeDist _ => .vrf (formattedStr routeDist) true
    | _ => .default
  (peer.attributeMaps.lookup key).getD []

end PeerConf

section Parts

variable {S C : Type}

/-- The size of an address of the family. -/
def addrSize (afi : Nat) : Nat := if afi = afiIP then 4 else 16

/-- NEXT_HOP, or MP_REACH_NLRI, whose constructor refuses a next hop of the other IP version. -/
def reachValue (peer : PeerConf) (path : RoutePath) :
    PyResult {value : AttrValue // isPlain value = true} :=
  let nextHop := peer.nextHopFor path
  if path.isIpv4Path then .ok ⟨.nextHop nextHop, rfl⟩
  else if nextHop.length = addrSize path.routeFamily.afi then
    .ok ⟨.mpReachNlri path.routeFamily.afi path.routeFamily.safi nextHop [path.nlri], rfl⟩
  else .error (.other "AddrFormatError")

def medAttr (peer : PeerConf) (attrs : List (Attr S C)) : Option (Attr S C) :=
  if peer.isEbgpPeer then
    match peer.multiExitDisc with
    | some med => if med = 0 then none else some (.other 0 (.multiExitDisc med) rfl)
    | none => none
  else getAttr attrs 4

def defaultLocalPref : Nat := 100

/-- LOCAL_PREF is for internal peers only. -/
def localprefAttrs {m : Type → Type} [Monad m] (eval : Filter → m (Nat × Bool)) (peer : PeerConf)
    (path : RoutePath) : m (List (Attr S C)) :=
  if peer.isEbgpPeer then pure []
  else do
    let result ← lookupAttributeMap eval (peer.mapsFor path)
    return [.other 0 (.localPref (result.getD defaultLocalPref)) rfl]

/-- The UPDATE of a path that is no withdrawal. -/
def finish (path : RoutePath) (newPathattr : List (Attr S C)) : Update S C where
  pathAttributes := newPathattr
  nlri := if path.isIpv4Path then [path.nlri] else []

def withdrawal (path : RoutePath) : Update S C :=
  if path.isIpv4Path then { withdrawnRoutes := [path.nlri] }
  else
    { pathAttributes :=
        [.other 0 (.mpUnreachNlri path.routeFamily.afi path.routeFamily.safi [path.nlri]) rfl] }

end Parts

/-! ## The code -/

/-- `path_seg_list`, a deep copy of the value of the attribute. -/
def pathSegList (value : Ref) : PyM Heap Ref := fun heap =>
  let segs := heap.readSegs value
  (.ok heap.segLists.next,
    { heap with
      segments := heap.segments.allocAll segs
      segLists := heap.segLists.alloc (range' heap.segments.next segs.length) })

/-- `path_seg_list.insert(0, [asn])` -/
def insertSegment (asn : Nat) (list : Ref) (heap : Heap) : Heap :=
  { heap with
    segments := heap.segments.alloc (.asSequence [asn])
    segLists := heap.segLists.write list (heap.segments.next :: heap.segLists.read list) }

/-- The own AS number goes into the first segment, if that is a sequence with room for it, or into a
new first segment. -/
def prependAs (asn : Nat) (list : Ref) (heap : Heap) : Heap :=
  match heap.segLists.read list with
  | [] => insertSegment asn list heap
  | seg :: _ =>
    match heap.segments.read seg with
    | .asSequence l =>
      if l.length < 255 then
        { heap with segments := heap.segments.write seg (.asSequence (asn :: l)) }
      else insertSegment asn list heap
    | .asSet _ => insertSegment asn list heap

def aspathAttr (peer : PeerConf) (value : Ref) : PyM Heap (Attr Ref Ref) := do
  let list ← pathSegList value
  if peer.isEbgpPeer then modify (prependAs peer.asn list)
  return .asPath 0 list

/-- `Filter.evaluate` -/
def evaluate (path : RoutePath) : Filter → PyM Heap (Nat × Bool)
  | .prefixFilter f => liftM (f.evaluate path.nlri)
  | .asPathFilter f =>
    match getAsPath path.pathAttrMap with
    | none => throw .attributeError
    | some value => do
      let list ← pathSegList value
      let heap ← get
      liftM (f.evaluate (heap.readSegs list))

/-- The attributes up to COMMUNITIES. -/
def firstAttrs (peer : PeerConf) (path : RoutePath) : PyM Heap (List (Attr Ref Ref)) := do
  let reach ← liftM (reachValue peer path)
  match getAttr path.pathAttrMap 1, getAsPath path.pathAttrMap with
  | some origin, some value => do
    let aspath ← aspathAttr peer value
    let localpref ← localprefAttrs (evaluate path) peer path
    return [.other 0 reach.1 reach.2, origin, aspath] ++ (medAttr peer path.pathAttrMap).toList ++
      localpref ++ (getAttr path.pathAttrMap 8).toList
  | _, _ => throw .assertionError

def appendCommunity (communities : Ref) (c : ExtendedCommunity) (heap : Heap) : Heap :=
  { heap with
    communities := heap.communities.write communities (heap.communities.read communities ++ [c]) }

def addSoo (communities : Ref) (soo : Soo) : PyM Heap Unit := do
  let c ← liftM soo.community
  modify (appendCommunity communities c)

/-- The list of the new attribute is the one of the path. -/
def extcommAttr (peer : PeerConf) (path : RoutePath) : PyM Heap (Option (Attr Ref Ref)) :=
  match getCommunities path.pathAttrMap with
  | none => pure none
  | some communities => do
    peer.sooList.forM (addSoo communities)
    return some (.extendedCommunities 0 communities)

def constructUpdate (peer : PeerConf) (path : RoutePath) : PyM Heap (Update Ref Ref) :=
  if path.isWithdraw then pure (withdrawal path)
  else if peer.isRouteServerClient then pure (finish path path.pathAttrMap)
  else do
    let first ← firstAttrs peer path
    let extcomm ← extcommAttr peer path
    return finish path (first ++ extcomm.toList ++ getUnknownOpttransAttr path.pathAttrMap)

/-! ## The same on values -/

section Values

variable {C : Type}

def prependedAs (asn : Nat) : List AsSegment → List AsSegment
  | .asSequence l :: segs =>
    if l.length < 255 then .asSequence (asn :: l) :: segs
    else .asSequence [asn] :: .asSequence l :: segs
  | segs => .asSequence [asn] :: segs

/-- The AS path that is sent. -/
def sentAsPath (peer : PeerConf) (segs : List AsSegment) : List AsSegment :=
  if peer.isEbgpPeer then prependedAs peer.asn segs else segs

def evaluateOn (path : RoutePath) (attrs : List (Attr (List AsSegment) C)) :
    Filter → PyResult (Nat × Bool)
  | .prefixFilter f => f.evaluate path.nlri
  | .asPathFilter f =>
    match getAsPath attrs with
    | none => .error .attributeError
    | some segs => f.evaluate segs

def firstAttrsOf (peer : PeerConf) (path : RoutePath) (attrs : List (Attr (List AsSegment) C)) :
    PyResult (List (Attr (List AsSegment) C)) := do
  let reach ← reachValue peer path
  match getAttr attrs 1, getAsPath attrs with
  | some origin, some segs => do
    let localpref ← localprefAttrs (evaluateOn path attrs) peer path
    return [.other 0 reach.1 reach.2, origin, .asPath 0 (sentAsPath peer segs)] ++
      (medAttr peer attrs).toList ++ localpref ++ (getAttr attrs 8).toList
  | _, _ => throw .assertionError

/-- The UPDATE for a peer, by the attributes of the path. -/
def updateFor (peer : PeerConf) (path : RoutePath)
    (attrs : List (Attr (List AsSegment) (List ExtendedCommunity))) :
    PyResult (Update (List AsSegment) (List ExtendedCommunity)) :=
  if path.isWithdraw then pure (withdrawal path)
  else if peer.isRouteServerClient then pure (finish path attrs)
  else do
    let first ← firstAttrsOf peer path attrs
    let extcomm ←
      match getCommunities attrs with
      | none => pure none
      | some communities => do
        let soos ← peer.sooList.mapM Soo.community
        pure (some (.extendedCommunities 0 (communities ++ soos)))
    return finish path (first ++ extcomm.toList ++ getUnknownOpttransAttr attrs)

end Values

end

/-! ## Attributes and their values -/

namespace Attr

variable {S C S' C' : Type}

section

variable (f : S → S') (g : C → C') (attr : Attr S C)

@[simp] theorem type_map : (attr.map f g).type = attr.type := by
  cases attr <;> rfl

@[simp] theorem asPath?_map : (attr.map f g).asPath? = attr.asPath?.map f := by
  cases attr <;> rfl

@[simp] theorem communities?_map : (attr.map f g).communities? = attr.communities?.map g := by
  cases attr <;> rfl

@[simp] theorem isUnknownOpttrans_map :
    (attr.map f g).isUnknownOpttrans = attr.isUnknownOpttrans := by
  cases attr with
  | asPath => rfl
  | extendedCommunities => rfl
  | other flags value plain => cases value <;> rfl

end

theorem map_map {S'' C'' : Type} (f : S → S') (g : C → C') (f' : S' → S'') (g' : C' → C'')
    (attr : Attr S C) : (attr.map f g).map f' g' = attr.map (f' ∘ f) (g' ∘ g) := by
  cases attr <;> rfl

variable {attr : Attr S C}

/-- Only extended communities depend on how their list is read. -/
theorem map_congr_of_communities? {f : S → S'} {g g' : C → C'}
    (h : attr.communities? = none) : attr.map f g = attr.map f g' := by
  cases attr with
  | asPath => rfl
  | other => rfl
  | extendedCommunities => cases h

theorem communities?_of_type (h : attr.type ≠ 16) : attr.communities? = none := by
  cases attr with
  | asPath => rfl
  | other => rfl
  | extendedCommunities => exact absurd rfl h

end Attr

section Naturality

variable {S C S' C' : Type} (f : S → S') (g : C → C') (attrs : List (Attr S C))

@[simp] theorem getAttr_map (type : Nat) :
    getAttr (attrs.map (Attr.map f g)) type = (getAttr attrs type).map (Attr.map f g) := by
  simp only [getAttr, find?_map, comp_def, Attr.type_map]

@[simp] theorem getAsPath_map :
    getAsPath (attrs.map (Attr.map f g)) = (getAsPath attrs).map f := by
  simp only [getAsPath, findSome?_map, map_findSome?, comp_def, Attr.asPath?_map]

@[simp] theorem getCommunities_map :
    getCommunities (attrs.map (Attr.map f g)) = (getCommunities attrs).map g := by
  simp only [getCommunities, findSome?_map, map_findSome?, comp_def, Attr.communities?_map]

theorem getUnknownOpttransAttr_map :
    getUnknownOpttransAttr (attrs.map (Attr.map f g)) =
      (getUnknownOpttransAttr attrs).map (Attr.map f g) := by
  simp only [getUnknownOpttransAttr, filter_map, comp_def, Attr.isUnknownOpttrans_map]

theorem medAttr_map (peer : PeerConf) :
    medAttr peer (attrs.map (Attr.map f g)) = (medAttr peer attrs).map (Attr.map f g) := by
  unfold medAttr
  split
  · cases peer.multiExitDisc with
    | none => rfl
    | some med => by_cases hmed : med = 0 <;> simp [hmed, Attr.map]
  · exact getAttr_map f g attrs 4

end Naturality

namespace Heap

/-- The attribute with its AS path read, and its communities as they are. -/
def readPath {C : Type} (heap : Heap) : Attr Ref C → Attr (List AsSegment) C :=
  Attr.map heap.readSegs id

/-- The list at `r` is an object of the heap, and so are its segments. -/
structure Holds (heap : Heap) (r : Ref) (segs : List AsSegment) : Prop where
  list_lt : r < heap.segLists.next
  seg_lt : ∀ seg ∈ heap.segLists.read r, seg < heap.segments.next
  readSegs_eq : heap.readSegs r = segs

theorem Holds.mono {heap heap' : Heap} {r : Ref} {segs : List AsSegment} (h : heap.Holds r segs)
    (hle : heap ≤ heap') : heap'.Holds r segs := by
  have hsegs : Store.Grows heap.segments heap'.segments := hle.1
  have hlists : Store.Grows heap.segLists heap'.segLists := hle.2
  have hlist : heap'.segLists.read r = heap.segLists.read r := hlists.read_eq r h.list_lt
  refine ⟨Nat.lt_of_lt_of_le h.list_lt hlists.next_le, ?_, ?_⟩
  · intro seg hseg
    rw [hlist] at hseg
    exact Nat.lt_of_lt_of_le (h.seg_lt seg hseg) hsegs.next_le
  · rw [← h.readSegs_eq, readSegs, readSegs, hlist]
    exact map_congr_left fun seg hseg => hsegs.read_eq seg (h.seg_lt seg hseg)

end Heap

variable {path : RoutePath} {heap : Heap}

theorem RoutePath.In.holds (h : path.In heap) {flags : Nat}
    {value : Ref} (hmem : .asPath flags value ∈ path.pathAttrMap) :
    heap.Holds value (heap.readSegs value) :=
  ⟨(h flags value hmem).1, (h flags value hmem).2, rfl⟩

variable {heap' : Heap}

/-- Nothing that makes new objects changes the AS path of a path. -/
theorem RoutePath.In.readPath_eq (h : path.In heap) (hle : heap ≤ heap') :
    path.pathAttrMap.map heap'.readPath = path.pathAttrMap.map heap.readPath := by
  apply map_congr_left
  intro attr hattr
  cases attr with
  | asPath flags value =>
    exact congrArg (Attr.asPath flags) ((h.holds hattr).mono hle).readSegs_eq
  | extendedCommunities => rfl
  | other => rfl

theorem RoutePath.In.mono (h : path.In heap) (hle : heap ≤ heap') : path.In heap' := by
  intro flags value hmem
  have hholds := (h.holds hmem).mono hle
  exact ⟨hholds.list_lt, hholds.seg_lt⟩

/-! ## The code follows the computation on values -/

/-- The list at `r` and its segments were made after `heap`. -/
structure Heap.Owns (heap heap' : Heap) (r : Ref) : Prop where
  list_ge : heap.segLists.next ≤ r
  seg_ge : ∀ seg ∈ heap'.segLists.read r, heap.segments.next ≤ seg
  nodup : (heap'.segLists.read r).Nodup

theorem pathSegList_spec (heap : Heap) (value : Ref) (h : heap' = (pathSegList value heap).2) :
    heap ≤ heap' ∧ heap.Owns heap' heap.segLists.next ∧
      heap'.Holds heap.segLists.next (heap.readSegs value) := by
  have hread : heap'.segLists.read heap.segLists.next =
      range' heap.segments.next (heap.readSegs value).length := by
    subst h
    exact Store.read_alloc_next ..
  have hnext : heap'.segments.next = heap.segments.next + (heap.readSegs value).length := by
    subst h
    exact Store.next_allocAll ..
  refine ⟨?_, ⟨le_rfl, ?_, ?_⟩, ?_, ?_, ?_⟩
  · subst h
    exact ⟨Store.le_allocAll .., Store.le_alloc ..⟩
  · intro seg hseg
    rw [hread, mem_range'_1] at hseg
    exact hseg.1
  · rw [hread]
    exact nodup_range'
  · subst h
    exact Nat.lt_succ_self _
  · intro seg hseg
    rw [hread, mem_range'_1] at hseg
    rw [hnext]
    exact hseg.2
  · rw [Heap.readSegs, hread]
    subst h
    exact Store.map_read_allocAll ..

section Prepend

variable {heap heap' : Heap} {r : Ref} {segs : List AsSegment} (asn : Nat)

theorem insertSegment_spec (hle : heap ≤ heap') (howns : heap.Owns heap' r)
    (hholds : heap'.Holds r segs) :
    heap ≤ insertSegment asn r heap' ∧
      (insertSegment asn r heap').Holds r (.asSequence [asn] :: segs) := by
  have hlist : (insertSegment asn r heap').segLists.read r =
      heap'.segments.next :: heap'.segLists.read r := Store.read_write_self ..
  have hsegs : (insertSegment asn r heap').segments = heap'.segments.alloc (.asSequence [asn]) :=
    rfl
  refine ⟨⟨hle.1.trans (Store.le_alloc ..), Store.le_write hle.2 howns.list_ge _⟩,
    hholds.list_lt, ?_, ?_⟩
  · intro seg hseg
    rw [hlist, mem_cons] at hseg
    obtain rfl | hseg := hseg
    · exact Nat.lt_succ_self _
    · exact Nat.lt_succ_of_lt (hholds.seg_lt seg hseg)
  · rw [Heap.readSegs, hlist, hsegs, map_cons, Store.read_alloc_next, ← hholds.readSegs_eq]
    apply congrArg (List.cons _)
    apply map_congr_left
    intro seg hseg
    exact Store.read_alloc_of_ne _ _ (Nat.ne_of_lt (hholds.seg_lt seg hseg))

/-- The AS number goes into objects that were made for it, and so nothing else changes. -/
theorem prependAs_spec (hle : heap ≤ heap') (howns : heap.Owns heap' r)
    (hholds : heap'.Holds r segs) :
    heap ≤ prependAs asn r heap' ∧ (prependAs asn r heap').Holds r (prependedAs asn segs) := by
  have hinsert := insertSegment_spec asn hle howns hholds
  have hreadSegs := hholds.readSegs_eq
  unfold Heap.readSegs at hreadSegs
  cases hlist : heap'.segLists.read r with
  | nil =>
    rw [hlist] at hreadSegs
    subst hreadSegs
    simp only [prependAs, hlist]
    exact hinsert
  | cons seg rest =>
    rw [hlist, map_cons] at hreadSegs
    cases hseg : heap'.segments.read seg with
    | asSet l =>
      rw [hseg] at hreadSegs
      subst hreadSegs
      simp only [prependAs, hlist, hseg]
      exact hinsert
    | asSequence l =>
      rw [hseg] at hreadSegs
      subst hreadSegs
      by_cases hl : l.length < 255
      · have hge : heap.segments.next ≤ seg := howns.seg_ge seg (by rw [hlist]; simp)
        have hnodup := howns.nodup
        rw [hlist, nodup_cons] at hnodup
        simp only [prependAs, hlist, hseg, prependedAs, if_pos hl]
        refine ⟨⟨Store.le_write hle.1 hge _, hle.2⟩, hholds.list_lt, hholds.seg_lt, ?_⟩
        rw [Heap.readSegs]
        simp only [hlist, map_cons, Store.read_write_self]
        apply congrArg (List.cons _)
        apply map_congr_left
        intro seg' hseg'
        exact Store.read_write_of_ne _ _ fun heq => hnodup.1 (heq ▸ hseg')
      · simp only [prependAs, hlist, hseg, prependedAs, if_neg hl]
        exact hinsert

end Prepend

theorem follows_aspathAttr (peer : PeerConf) (heap : Heap) (value : Ref) :
    PyM.Follows heap (aspathAttr peer value) (.ok (sentAsPath peer (heap.readSegs value)))
      fun attr segs heap' => ∃ r, attr = .asPath 0 r ∧ heap'.Holds r segs := by
  obtain ⟨hle, howns, hholds⟩ := pathSegList_spec heap value rfl
  unfold PyM.Follows aspathAttr sentAsPath
  cases peer.isEbgpPeer with
  | false => exact ⟨hle, heap.segLists.next, rfl, hholds⟩
  | true =>
    obtain ⟨hle', hholds'⟩ := prependAs_spec peer.asn hle howns hholds
    exact ⟨hle', heap.segLists.next, rfl, hholds'⟩

theorem getAsPath_readPath (path : RoutePath) (heap : Heap) :
    getAsPath (path.pathAttrMap.map heap.readPath) =
      (getAsPath path.pathAttrMap).map heap.readSegs :=
  getAsPath_map heap.readSegs id path.pathAttrMap

theorem getAttr_readPath (path : RoutePath) (heap : Heap) (type : Nat) :
    getAttr (path.pathAttrMap.map heap.readPath) type =
      (getAttr path.pathAttrMap type).map heap.readPath :=
  getAttr_map heap.readSegs id path.pathAttrMap type

theorem follows_pathSegList (heap : Heap) (value : Ref) :
    PyM.Follows heap (pathSegList value) (.ok (heap.readSegs value)) fun list segs heap' =>
      heap'.readSegs list = segs := by
  obtain ⟨hle, -, hholds⟩ := pathSegList_spec heap value rfl
  exact ⟨hle, hholds.readSegs_eq⟩

theorem follows_evaluate [Netaddr] (path : RoutePath) (heap : Heap) (f : Filter) :
    PyM.Follows heap (evaluate path f) (evaluateOn path (path.pathAttrMap.map heap.readPath) f)
      fun a b _ => a = b := by
  cases f with
  | prefixFilter f => exact .lift _
  | asPathFilter f =>
    unfold evaluate evaluateOn
    rw [getAsPath_readPath]
    cases getAsPath path.pathAttrMap with
    | none => exact .throw
    | some value =>
      refine (follows_pathSegList heap value).bind_left ?_
      intro list heap' hle hlist
      apply PyM.Follows.get_bind
      rw [hlist]
      exact .lift _

section Lookup

variable {σ : Type} [Preorder σ] {eval : Filter → PyM σ (Nat × Bool)}
  {evalOn : Filter → PyResult (Nat × Bool)} {s : σ}

section

variable (heval : ∀ s', s ≤ s' → ∀ f, PyM.Follows s' (eval f) (evalOn f) fun a b _ => a = b)
include heval

theorem follows_evaluateFilters (filters : List Filter) (res : Option Nat × Bool) :
    PyM.Follows s (evaluateFilters eval res filters) (evaluateFilters evalOn res filters)
      fun a b _ => a = b := by
  induction filters generalizing s res with
  | nil => exact .pure rfl
  | cons f filters ih =>
    refine (heval s le_rfl f).bind ?_
    rintro ⟨cause, result⟩ _ s' hle rfl
    cases result with
    | false => exact .pure rfl
    | true => exact ih (fun s'' hle' => heval s'' (hle.trans hle')) _

theorem follows_lookupAttributeMap (maps : List AttributeMap) :
    PyM.Follows s (lookupAttributeMap eval maps) (lookupAttributeMap evalOn maps)
      fun a b _ => a = b := by
  induction maps generalizing s with
  | nil => exact .pure rfl
  | cons map maps ih =>
    refine (follows_evaluateFilters heval map.filters (none, false)).bind ?_
    rintro ⟨cause, result⟩ _ s' hle rfl
    cases result with
    | true => exact .pure rfl
    | false => exact ih fun s'' hle' => heval s'' (hle.trans hle')

end

end Lookup

/-- The attributes of the code read as those of the computation, now and when the heap has grown. -/
def Heap.Reads (heap : Heap) (attrs : List (Attr Ref Ref))
    (vals : List (Attr (List AsSegment) Ref)) :
    Prop := ∀ heap', heap ≤ heap' → attrs.map heap'.readPath = vals

theorem Heap.Reads.append {attrs attrs' : List (Attr Ref Ref)}
    {vals vals' : List (Attr (List AsSegment) Ref)} (h : heap.Reads attrs vals)
    (h' : heap.Reads attrs' vals') : heap.Reads (attrs ++ attrs') (vals ++ vals') := by
  intro heap' hle
  rw [map_append, h heap' hle, h' heap' hle]

theorem follows_localprefAttrs [Netaddr] (hin : path.In heap) (peer : PeerConf)
    (hle : heap ≤ heap') : PyM.Follows heap' (localprefAttrs (evaluate path) peer path)
      (localprefAttrs (evaluateOn path (path.pathAttrMap.map heap.readPath)) peer path)
      fun attrs vals heap'' => heap''.Reads attrs vals := by
  unfold localprefAttrs
  split
  · exact .pure fun _ _ => rfl
  · have hlookup : PyM.Follows heap' (lookupAttributeMap (evaluate path) (peer.mapsFor path))
        (lookupAttributeMap (evaluateOn path (path.pathAttrMap.map heap.readPath))
          (peer.mapsFor path)) fun a b _ => a = b := by
      apply follows_lookupAttributeMap
      intro heap'' hle' f
      rw [← hin.readPath_eq (hle.trans hle')]
      exact follows_evaluate path heap'' f
    refine hlookup.bind ?_
    rintro result _ heap'' - rfl
    exact .pure fun _ _ => rfl

section Reads

variable {path : RoutePath} {heap heap' : Heap} (hin : path.In heap) (hle : heap ≤ heap')
include hin hle

theorem reads_getAttr (type : Nat) :
    heap'.Reads (getAttr path.pathAttrMap type).toList
      (getAttr (path.pathAttrMap.map heap.readPath) type).toList := by
  intro heap'' hle'
  rw [← hin.readPath_eq (hle.trans hle'), getAttr_readPath, Option.toList_map]

theorem reads_medAttr (peer : PeerConf) :
    heap'.Reads (medAttr peer path.pathAttrMap).toList
      (medAttr peer (path.pathAttrMap.map heap.readPath)).toList := by
  intro heap'' hle'
  rw [← hin.readPath_eq (hle.trans hle'), Heap.readPath, medAttr_map, Option.toList_map]

end Reads

theorem follows_firstAttrs [Netaddr] (hin : path.In heap) (peer : PeerConf) :
    PyM.Follows heap (firstAttrs peer path)
      (firstAttrsOf peer path (path.pathAttrMap.map heap.readPath))
      fun attrs vals heap' => heap'.Reads attrs vals := by
  refine (PyM.Follows.lift _).bind ?_
  rintro reach _ heap₁ hle₁ rfl
  rw [getAsPath_readPath]
  cases horigin : getAttr path.pathAttrMap 1 with
  | none =>
    rw [getAttr_readPath, horigin]
    exact .throw
  | some origin =>
    cases hvalue : getAsPath path.pathAttrMap with
    | none =>
      rw [getAttr_readPath, horigin]
      exact .throw
    | some value =>
      have hsegs : heap₁.readSegs value = heap.readSegs value := by
        have hmap := getAsPath_readPath path heap₁
        rw [hin.readPath_eq hle₁, getAsPath_readPath, hvalue] at hmap
        exact (Option.some.inj hmap).symm
      rw [getAttr_readPath path heap 1, horigin]
      refine (follows_aspathAttr peer heap₁ value).bind_left ?_
      rintro _ heap₂ hle₂ ⟨list, rfl, hlist⟩
      have hle := hle₁.trans hle₂
      refine (follows_localprefAttrs hin peer hle).bind ?_
      intro localpref vals heap₃ hle₃ hlocalpref
      have hreach : heap₃.Reads [.other 0 reach.1 reach.2] [.other 0 reach.1 reach.2] :=
        fun _ _ => rfl
      have haspath : heap₃.Reads [.asPath 0 list]
          [.asPath 0 (sentAsPath peer (heap.readSegs value))] := by
        intro heap' hle'
        have hread := (hlist.mono (hle₃.trans hle')).readSegs_eq
        rw [hsegs] at hread
        exact congrArg (fun segs => [Attr.asPath 0 segs]) hread
      have hget := reads_getAttr hin (hle.trans hle₃)
      have hfirst := hget 1
      rw [horigin, getAttr_readPath, horigin] at hfirst
      exact .pure (((((hreach.append hfirst).append haspath).append
        (reads_medAttr hin (hle.trans hle₃) peer)).append hlocalpref).append (hget 8))

/-! ## The lists of communities -/

section Keeps

variable {communities : Store (List ExtendedCommunity)}

theorem communities_prependAs (asn : Nat) (list : Ref) (heap : Heap) :
    (prependAs asn list heap).communities = heap.communities := by
  unfold prependAs
  split
  · rfl
  · split
    · split <;> rfl
    · rfl

theorem keeps_pathSegList (value : Ref) :
    PyM.Keeps (fun heap => heap.communities = communities) (pathSegList value) := fun _ h => h

theorem keeps_aspathAttr (peer : PeerConf) (value : Ref) :
    PyM.Keeps (fun heap => heap.communities = communities) (aspathAttr peer value) := by
  refine (keeps_pathSegList value).bind fun list => ?_
  cases peer.isEbgpPeer with
  | false => exact .pure
  | true =>
    refine PyM.Keeps.bind (.modify fun heap h => ?_) fun _ => .pure
    rw [communities_prependAs]
    exact h

theorem keeps_evaluate [Netaddr] (path : RoutePath) (f : Filter) :
    PyM.Keeps (fun heap => heap.communities = communities) (evaluate path f) := by
  cases f with
  | prefixFilter f => exact .lift
  | asPathFilter f =>
    unfold evaluate
    cases getAsPath path.pathAttrMap with
    | none => exact fun _ h => h
    | some value => exact (keeps_pathSegList value).bind fun _ => PyM.Keeps.get.bind fun _ => .lift

variable {σ : Type} {P : σ → Prop} {eval : Filter → PyM σ (Nat × Bool)}

theorem keeps_evaluateFilters (heval : ∀ f, PyM.Keeps P (eval f)) (filters : List Filter)
    (res : Option Nat × Bool) : PyM.Keeps P (evaluateFilters eval res filters) := by
  induction filters generalizing res with
  | nil => exact .pure
  | cons f filters ih =>
    refine (heval f).bind ?_
    rintro ⟨cause, result⟩
    cases result with
    | false => exact .pure
    | true => exact ih _

theorem keeps_lookupAttributeMap (heval : ∀ f, PyM.Keeps P (eval f)) (maps : List AttributeMap) :
    PyM.Keeps P (lookupAttributeMap eval maps) := by
  induction maps with
  | nil => exact .pure
  | cons map maps ih =>
    refine (keeps_evaluateFilters heval map.filters (none, false)).bind ?_
    rintro ⟨cause, result⟩
    cases result with
    | true => exact .pure
    | false => exact ih

theorem keeps_firstAttrs [Netaddr] (peer : PeerConf) (path : RoutePath) :
    PyM.Keeps (fun heap => heap.communities = communities) (firstAttrs peer path) := by
  refine PyM.Keeps.lift.bind fun reach => ?_
  cases getAttr path.pathAttrMap 1 with
  | none => exact fun _ h => h
  | some origin =>
    cases getAsPath path.pathAttrMap with
    | none => exact fun _ h => h
    | some value =>
      refine (keeps_aspathAttr peer value).bind fun aspath => ?_
      refine PyM.Keeps.bind ?_ fun _ => .pure
      unfold localprefAttrs
      split
      · exact .pure
      · exact (keeps_lookupAttributeMap (keeps_evaluate path) _).bind fun _ => .pure

end Keeps

/-- The heap with communities added at the end of a list. -/
def Heap.extend (heap : Heap) (r : Ref) (cs : List ExtendedCommunity) : Heap :=
  { heap with communities := heap.communities.write r (heap.communities.read r ++ cs) }

namespace Heap

theorem le_extend (heap : Heap) (r : Ref) (cs : List ExtendedCommunity) : heap ≤ heap.extend r cs :=
  ⟨le_rfl, le_rfl⟩

theorem extend_nil (heap : Heap) (r : Ref) : heap.extend r [] = heap := by
  simp [extend, Store.write]

theorem extend_extend (heap : Heap) (r : Ref) (cs cs' : List ExtendedCommunity) :
    (heap.extend r cs).extend r cs' = heap.extend r (cs ++ cs') := by
  simp [extend, Store.write]

@[simp] theorem read_extend (heap : Heap) (r : Ref) (cs : List ExtendedCommunity) :
    (heap.extend r cs).communities.read r = heap.communities.read r ++ cs :=
  Store.read_write_self ..

end Heap

/-- The communities for the sites of origin, up to the first one that has no number. -/
def convertible : List Soo → List ExtendedCommunity
  | [] => []
  | soo :: sooList =>
    match soo.community with
    | .ok c => c :: convertible sooList
    | .error _ => []

theorem convertible_of_mapM {sooList : List Soo} {cs : List ExtendedCommunity}
    (h : sooList.mapM Soo.community = .ok cs) : convertible sooList = cs := by
  induction sooList generalizing cs with
  | nil =>
    cases h
    rfl
  | cons soo sooList ih =>
    rw [mapM_cons] at h
    obtain ⟨c, hc, h⟩ := bind_eq_ok.1 h
    obtain ⟨cs', hcs', h⟩ := bind_eq_ok.1 h
    cases h
    simp only [convertible, hc]
    rw [ih hcs']

theorem forM_addSoo (r : Ref) (sooList : List Soo) (heap : Heap) :
    sooList.forM (addSoo r) heap =
      ((sooList.mapM Soo.community).map fun _ => ⟨⟩, heap.extend r (convertible sooList)) := by
  induction sooList generalizing heap with
  | nil =>
    rw [convertible, Heap.extend_nil]
    rfl
  | cons soo sooList ih =>
    rw [mapM_cons]
    cases hc : soo.community with
    | error e =>
      have hstep : addSoo r soo heap = (.error e, heap) := by
        rw [addSoo, hc]
        rfl
      rw [forM_cons_of_error hstep]
      simp only [convertible, hc, Heap.extend_nil]
      rfl
    | ok c =>
      have hstep : addSoo r soo heap = (.ok ⟨⟩, heap.extend r [c]) := by
        rw [addSoo, hc]
        rfl
      rw [forM_cons_of_ok hstep, ih, Heap.extend_extend]
      simp only [convertible, hc]
      cases sooList.mapM Soo.community <;> rfl

/-! ## What is built -/

section FirstAttrs

variable {C C' : Type} (peer : PeerConf) (path : RoutePath)
  (attrs : List (Attr (List AsSegment) C)) (g : C → C')

theorem evaluateOn_map [Netaddr] :
    evaluateOn path (attrs.map (Attr.map id g)) = evaluateOn path attrs := by
  funext f
  cases f with
  | prefixFilter f => rfl
  | asPathFilter f => simp [evaluateOn, getAsPath_map, id]

theorem localprefAttrs_map {S S' : Type} (f : S → S') (eval : Filter → PyResult (Nat × Bool)) :
    localprefAttrs eval peer path =
      (localprefAttrs eval peer path).map (List.map (Attr.map f g)) := by
  unfold localprefAttrs
  split
  · rfl
  · cases lookupAttributeMap eval (peer.mapsFor path) <;> rfl

/-- The first attributes do not depend on how the lists of communities are given. -/
theorem firstAttrsOf_map [Netaddr] :
    firstAttrsOf peer path (attrs.map (Attr.map id g)) =
      (firstAttrsOf peer path attrs).map (List.map (Attr.map id g)) := by
  unfold firstAttrsOf
  rw [evaluateOn_map, medAttr_map, getAttr_map, getAttr_map, getAsPath_map,
    localprefAttrs_map peer path g id]
  cases reachValue peer path with
  | error e => rfl
  | ok reach =>
    cases getAttr attrs 1 with
    | none => rfl
    | some origin =>
      cases getAsPath attrs with
      | none => rfl
      | some segs =>
        cases (localprefAttrs (evaluateOn path attrs) peer path :
            PyResult (List (Attr (List AsSegment) C))) with
        | error e => rfl
        | ok localpref =>
          refine congrArg Except.ok ?_
          simp only [map_append, map_cons, map_nil, Option.toList_map]
          rfl

/-- What the code needs to get to the extended communities. -/
theorem firstAttrsOf_isOk_iff [Netaddr] :
    (∃ first, firstAttrsOf peer path attrs = .ok first) ↔
      (∃ reach, reachValue peer path = .ok reach) ∧ (getAttr attrs 1).isSome ∧
        (getAsPath attrs).isSome ∧
        (peer.isEbgpPeer = true ∨
          ∃ result, lookupAttributeMap (evaluateOn path attrs) (peer.mapsFor path) =
            .ok result) := by
  unfold firstAttrsOf localprefAttrs
  cases reachValue peer path with
  | error e => simp
  | ok reach =>
    cases getAttr attrs 1 with
    | none => simp
    | some origin =>
      cases getAsPath attrs with
      | none => simp
      | some segs =>
        cases peer.isEbgpPeer with
        | true => simp
        | false =>
          cases lookupAttributeMap (evaluateOn path attrs) (peer.mapsFor path) <;>
            simp

variable {peer path attrs}

theorem communities?_of_mem_getAttr {S : Type} {attrs : List (Attr S C)} {type : Nat}
    (htype : type ≠ 16) {attr : Attr S C} (h : attr ∈ (getAttr attrs type).toList) :
    attr.communities? = none := by
  rw [Option.mem_toList] at h
  have heq : attr.type = type := by simpa using find?_some h
  exact Attr.communities?_of_type (heq ▸ htype)

theorem communities?_of_mem_medAttr {S : Type} {attrs : List (Attr S C)} {attr : Attr S C}
    (h : attr ∈ (medAttr peer attrs).toList) : attr.communities? = none := by
  unfold medAttr at h
  split at h
  · split at h
    · split at h
      · simp at h
      · rw [Option.mem_toList] at h
        cases h
        rfl
    · simp at h
  · exact communities?_of_mem_getAttr (by simp) h

theorem communities?_of_mem_localprefAttrs {S : Type} {eval : Filter → PyResult (Nat × Bool)}
    {localpref : List (Attr S C)} (h : localprefAttrs eval peer path = .ok localpref)
    {attr : Attr S C} (hmem : attr ∈ localpref) : attr.communities? = none := by
  unfold localprefAttrs at h
  split at h
  · cases h
    cases hmem
  · obtain ⟨result, -, h⟩ := bind_eq_ok.1 h
    cases h
    rw [mem_singleton] at hmem
    subst hmem
    rfl

theorem communities?_of_mem_firstAttrsOf [Netaddr] {first : List (Attr (List AsSegment) C)}
    (h : firstAttrsOf peer path attrs = .ok first) {attr : Attr (List AsSegment) C}
    (hmem : attr ∈ first) : attr.communities? = none := by
  obtain ⟨reach, -, h⟩ := bind_eq_ok.1 h
  split at h
  · rename_i origin segs horigin hsegs
    obtain ⟨localpref, hlocalpref, h⟩ := bind_eq_ok.1 h
    cases h
    simp only [append_assoc, mem_append, mem_cons, not_mem_nil, or_false]
      at hmem
    obtain (rfl | rfl | rfl) | hmem | hmem | hmem := hmem
    · rfl
    · exact @communities?_of_mem_getAttr _ _ _ 1 (by simp) _ (Option.mem_toList.2 horigin)
    · rfl
    · exact communities?_of_mem_medAttr hmem
    · exact communities?_of_mem_localprefAttrs hlocalpref hmem
    · exact communities?_of_mem_getAttr (by simp) hmem
  · cases h

end FirstAttrs

theorem Attr.map_congr_of_isUnknownOpttrans {S C S' C' : Type} {f f' : S → S'} {g g' : C → C'}
    {attr : Attr S C} (h : attr.isUnknownOpttrans = true) : attr.map f g = attr.map f' g' := by
  cases attr with
  | asPath => cases h
  | extendedCommunities => cases h
  | other => rfl

theorem extcommAttr_apply (peer : PeerConf) (path : RoutePath) (heap : Heap) :
    extcommAttr peer path heap =
      match getCommunities path.pathAttrMap with
      | none => (.ok none, heap)
      | some r => ((peer.sooList.mapM Soo.community).map fun _ => some (.extendedCommunities 0 r),
          heap.extend r (convertible peer.sooList)) := by
  unfold extcommAttr
  cases getCommunities path.pathAttrMap with
  | none => rfl
  | some r =>
    have hloop := forM_addSoo r peer.sooList heap
    cases hsoos : peer.sooList.mapM Soo.community with
    | error e =>
      rw [hsoos] at hloop
      exact bind_of_error hloop _
    | ok soos =>
      rw [hsoos] at hloop
      exact bind_of_ok hloop _

/-- The UPDATE that the code builds, as it reads when it is done. -/
def built [Netaddr] (peer : PeerConf) (path : RoutePath) (heap : Heap) :
    PyResult (Update (List AsSegment) (List ExtendedCommunity)) :=
  (constructUpdate peer path heap).1.map (constructUpdate peer path heap).2.readUpdate

theorem RoutePath.attrs_eq (path : RoutePath) (heap : Heap) :
    path.attrs heap =
      (path.pathAttrMap.map heap.readPath).map (Attr.map id heap.communities.read) := by
  rw [RoutePath.attrs, map_map]
  apply map_congr_left
  intro attr _
  exact (Attr.map_map heap.readSegs id id heap.communities.read attr).symm

section Built

variable {peer : PeerConf} {path : RoutePath} {heap heap₁ heap₂ : Heap}

/-- The first attributes are made, or not, as by the computation, and the lists of communities stay
as they are. -/
theorem firstAttrs_cases [Netaddr] (hin : path.In heap) (peer : PeerConf) :
    ∃ heap₁, heap ≤ heap₁ ∧ heap₁.communities = heap.communities ∧
      ((∃ e, firstAttrs peer path heap = (.error e, heap₁) ∧
          firstAttrsOf peer path (path.pathAttrMap.map heap.readPath) = .error e) ∨
        ∃ first vals, firstAttrs peer path heap = (.ok first, heap₁) ∧
          firstAttrsOf peer path (path.pathAttrMap.map heap.readPath) = .ok vals ∧
          heap₁.Reads first vals) := by
  obtain ⟨heap₁, hle, hcases⟩ := (follows_firstAttrs hin peer).cases
  have hcommunities : (firstAttrs peer path heap).2.communities = heap.communities :=
    (keeps_firstAttrs peer path).final rfl
  refine ⟨heap₁, hle, ?_, hcases⟩
  obtain ⟨e, hfirst, -⟩ | ⟨first, vals, hfirst, -, -⟩ := hcases
  · rw [hfirst] at hcommunities
    exact hcommunities
  · rw [hfirst] at hcommunities
    exact hcommunities

theorem constructUpdate_of_error [Netaddr] (hwithdraw : path.isWithdraw = false)
    (hclient : peer.isRouteServerClient = false) {e : PyErr}
    (h : firstAttrs peer path heap = (.error e, heap₁)) :
    constructUpdate peer path heap = (.error e, heap₁) := by
  unfold constructUpdate
  rw [hwithdraw, hclient]
  exact bind_of_error h _

variable {first : List (Attr Ref Ref)}

theorem constructUpdate_of_ok [Netaddr] (hwithdraw : path.isWithdraw = false)
    (hclient : peer.isRouteServerClient = false)
    (h : firstAttrs peer path heap = (.ok first, heap₁)) :
    constructUpdate peer path heap =
      ((extcommAttr peer path heap₁).1.map fun extcomm =>
          finish path (first ++ extcomm.toList ++ getUnknownOpttransAttr path.pathAttrMap),
        (extcommAttr peer path heap₁).2) := by
  unfold constructUpdate
  rw [hwithdraw, hclient]
  refine (bind_of_ok h _).trans ?_
  rw [bind_apply]
  cases extcommAttr peer path heap₁ with
  | mk res heap₂ => cases res <;> rfl

/-- The attributes of an UPDATE, read after all the steps. -/
theorem readUpdate_finish {vals : List (Attr (List AsSegment) Ref)}
    (hreads : heap₁.Reads first vals) (hvals : ∀ attr ∈ vals, attr.communities? = none)
    (hle : heap₁ ≤ heap₂) (extcomm : Option (Attr Ref Ref)) :
    heap₂.readUpdate
        (finish path (first ++ extcomm.toList ++ getUnknownOpttransAttr path.pathAttrMap)) =
      finish path (vals.map (Attr.map id heap.communities.read) ++
        (extcomm.map heap₂.readAttr).toList ++ getUnknownOpttransAttr (path.attrs heap)) := by
  have hfirst : first.map heap₂.readAttr = vals.map (Attr.map id heap.communities.read) := by
    calc first.map heap₂.readAttr
        = (first.map heap₂.readPath).map (Attr.map id heap₂.communities.read) := by
          rw [map_map]
          apply map_congr_left
          intro attr _
          exact (Attr.map_map heap₂.readSegs id id heap₂.communities.read attr).symm
      _ = vals.map (Attr.map id heap₂.communities.read) := by rw [hreads heap₂ hle]
      _ = vals.map (Attr.map id heap.communities.read) :=
          map_congr_left fun attr hattr => Attr.map_congr_of_communities? (hvals attr hattr)
  have hunknown : (getUnknownOpttransAttr path.pathAttrMap).map heap₂.readAttr =
      getUnknownOpttransAttr (path.attrs heap) := by
    rw [RoutePath.attrs, Heap.readAttr, Heap.readAttr, getUnknownOpttransAttr_map]
    apply map_congr_left
    intro attr hattr
    exact Attr.map_congr_of_isUnknownOpttrans (mem_filter.1 hattr).2
  simp only [Heap.readUpdate, finish, map_append, hfirst, hunknown, Option.toList_map]

theorem updateFor_of_first [Netaddr] (hwithdraw : path.isWithdraw = false)
    (hclient : peer.isRouteServerClient = false) :
    updateFor peer path (path.attrs heap) = do
      let vals ← firstAttrsOf peer path (path.pathAttrMap.map heap.readPath)
      let extcomm ←
        match getCommunities path.pathAttrMap with
        | none => pure none
        | some r => do
          let soos ← peer.sooList.mapM Soo.community
          pure (some (.extendedCommunities 0 (heap.communities.read r ++ soos)))
      return finish path (vals.map (Attr.map id heap.communities.read) ++ extcomm.toList ++
        getUnknownOpttransAttr (path.attrs heap)) := by
  have hfirst := firstAttrsOf_map peer path (path.pathAttrMap.map heap.readPath)
    heap.communities.read
  rw [← RoutePath.attrs_eq] at hfirst
  have hget : getCommunities (path.attrs heap) =
      (getCommunities path.pathAttrMap).map heap.communities.read :=
    getCommunities_map heap.readSegs heap.communities.read path.pathAttrMap
  unfold updateFor
  rw [hwithdraw, hclient, hfirst, hget]
  cases firstAttrsOf peer path (path.pathAttrMap.map heap.readPath) with
  | error e => rfl
  | ok vals => cases getCommunities path.pathAttrMap <;> rfl

/-- The code builds the UPDATE that the attributes of the path at that time give. -/
theorem built_eq [Netaddr] (hin : path.In heap) (peer : PeerConf) :
    built peer path heap = updateFor peer path (path.attrs heap) := by
  cases hwithdraw : path.isWithdraw with
  | true =>
    simp only [built, constructUpdate, updateFor, hwithdraw]
    change Except.ok (heap.readUpdate (withdrawal path)) = .ok (withdrawal path)
    unfold withdrawal
    split <;> rfl
  | false =>
    cases hclient : peer.isRouteServerClient with
    | true =>
      simp only [built, constructUpdate, updateFor, hwithdraw, hclient]
      rfl
    | false =>
      obtain ⟨heap₁, hle, hcommunities, hcases⟩ := firstAttrs_cases hin peer
      rw [updateFor_of_first hwithdraw hclient]
      obtain ⟨e, hfirst, hvals⟩ | ⟨first, vals, hfirst, hvals, hreads⟩ := hcases
      · rw [built, constructUpdate_of_error hwithdraw hclient hfirst, hvals]
        rfl
      · have hread := fun heap₂ => @readUpdate_finish path heap heap₁ heap₂ first vals hreads
          fun _ => communities?_of_mem_firstAttrsOf hvals
        rw [built, constructUpdate_of_ok hwithdraw hclient hfirst, extcommAttr_apply, hvals]
        cases getCommunities path.pathAttrMap with
        | none => exact congrArg Except.ok (hread heap₁ le_rfl none)
        | some r =>
          cases hsoos : peer.sooList.mapM Soo.community with
          | error e => rfl
          | ok soos =>
            refine congrArg Except.ok ((hread _ (heap₁.le_extend r _) _).trans ?_)
            rw [convertible_of_mapM hsoos]
            simp [Heap.readAttr, Attr.map, hcommunities]

end Built

/-! ## Calls one after the other -/

/-- The communities that a call leaves in the list of the path. -/
def added [Netaddr] {C : Type} (peer : PeerConf) (path : RoutePath)
    (attrs : List (Attr (List AsSegment) C)) : List ExtendedCommunity :=
  if path.isWithdraw ∨ peer.isRouteServerClient then []
  else
    match firstAttrsOf peer path attrs with
    | .ok _ => convertible peer.sooList
    | .error _ => []

/-- The heap after calls for the peers in turn, whether or not they raise. -/
def afterCalls [Netaddr] (path : RoutePath) (peers : List PeerConf) (heap : Heap) : Heap :=
  peers.foldl (fun heap peer => (constructUpdate peer path heap).2) heap

section Calls

variable {peer : PeerConf} {path : RoutePath} {heap : Heap} {C : Type}
  {attrs : List (Attr (List AsSegment) C)}

theorem added_of_error [Netaddr] {e : PyErr}
    (h : firstAttrsOf peer path attrs = .error e) : added peer path attrs = [] := by
  unfold added
  split
  · rfl
  · rw [h]

theorem added_of_ok [Netaddr] {vals : List (Attr (List AsSegment) C)}
    (hwithdraw : path.isWithdraw = false)
    (hclient : peer.isRouteServerClient = false) (h : firstAttrsOf peer path attrs = .ok vals) :
    added peer path attrs = convertible peer.sooList := by
  unfold added
  rw [hwithdraw, hclient, h]
  rfl

/-- The heap after a call: the lists of the AS paths are as they were, and the sites of origin are
in the list of the path. -/
def Leaves (path : RoutePath) (heap heap' : Heap) (cs : List ExtendedCommunity) : Prop :=
  heap ≤ heap' ∧
    heap'.communities =
      match getCommunities path.pathAttrMap with
      | none => heap.communities
      | some r => (heap.extend r cs).communities

theorem leaves_nil_iff : Leaves path heap heap' [] ↔
    heap ≤ heap' ∧ heap'.communities = heap.communities := by
  unfold Leaves
  cases getCommunities path.pathAttrMap with
  | none => rfl
  | some r => simp only [Heap.extend_nil]

theorem Leaves.trans {heap'' : Heap} {cs cs' : List ExtendedCommunity}
    (h : Leaves path heap heap' cs) (h' : Leaves path heap' heap'' cs') :
    Leaves path heap heap'' (cs ++ cs') := by
  refine ⟨h.1.trans h'.1, h'.2.trans ?_⟩
  have hcommunities := h.2
  cases hr : getCommunities path.pathAttrMap with
  | none =>
    rw [hr] at hcommunities
    exact hcommunities
  | some r =>
    rw [hr] at hcommunities
    dsimp only at hcommunities ⊢
    rw [← Heap.extend_extend]
    simp only [Heap.extend] at hcommunities ⊢
    rw [hcommunities]

theorem constructUpdate_leaves [Netaddr] (hin : path.In heap) (peer : PeerConf) :
    Leaves path heap (constructUpdate peer path heap).2
      (added peer path (path.pathAttrMap.map heap.readPath)) := by
  cases hwithdraw : path.isWithdraw with
  | true =>
    simp only [constructUpdate, added, hwithdraw, true_or, if_true]
    exact leaves_nil_iff.2 ⟨le_rfl, rfl⟩
  | false =>
    cases hclient : peer.isRouteServerClient with
    | true =>
      simp only [constructUpdate, added, hwithdraw, hclient, or_true, if_true]
      exact leaves_nil_iff.2 ⟨le_rfl, rfl⟩
    | false =>
      obtain ⟨heap₁, hle, hcommunities, hcases⟩ := firstAttrs_cases hin peer
      obtain ⟨e, hfirst, hvals⟩ | ⟨first, vals, hfirst, hvals, -⟩ := hcases
      · rw [constructUpdate_of_error hwithdraw hclient hfirst, added_of_error hvals]
        exact leaves_nil_iff.2 ⟨hle, hcommunities⟩
      · rw [constructUpdate_of_ok hwithdraw hclient hfirst, added_of_ok hwithdraw hclient hvals,
          extcommAttr_apply]
        unfold Leaves
        cases getCommunities path.pathAttrMap with
        | none => exact ⟨hle, hcommunities⟩
        | some r =>
          refine ⟨hle.trans (heap₁.le_extend r _), ?_⟩
          simp only [Heap.extend, hcommunities]

/-- After any calls, the list of the path has the sites of origin of all of them. -/
theorem afterCalls_leaves [Netaddr] (hin : path.In heap) (peers : List PeerConf) :
    Leaves path heap (afterCalls path peers heap)
      (peers.flatMap fun peer => added peer path (path.pathAttrMap.map heap.readPath)) := by
  induction peers generalizing heap with
  | nil => exact leaves_nil_iff.2 ⟨le_rfl, rfl⟩
  | cons peer peers ih =>
    have hstep := constructUpdate_leaves hin peer
    have hrest := ih (hin.mono hstep.1)
    rw [hin.readPath_eq hstep.1] at hrest
    exact hstep.trans hrest

end Calls

/-! ## When the calls leave no trace -/

theorem convertible_eq_nil_iff (sooList : List Soo) :
    convertible sooList = [] ↔ ∀ soo ∈ sooList.head?, ∃ e, soo.community = .error e := by
  cases sooList with
  | nil => simp [convertible]
  | cons soo sooList =>
    cases h : soo.community <;> simp [convertible, h]

/-- A call for this peer adds nothing to the list of the path: it does not get to the extended
communities, there are none, or there is nothing to add. -/
def Spares [Netaddr] {C : Type} (peer : PeerConf) (path : RoutePath)
    (attrs : List (Attr (List AsSegment) C)) : Prop :=
  path.isWithdraw = true ∨ peer.isRouteServerClient = true ∨ getCommunities attrs = none ∨
    (∀ soo ∈ peer.sooList.head?, ∃ e, soo.community = .error e) ∨
    (path.isIpv4Path = false ∧ (peer.nextHopFor path).length ≠ addrSize path.routeFamily.afi) ∨
    getAttr attrs 1 = none ∨ getAsPath attrs = none ∨
    (peer.isEbgpPeer = false ∧
      ∃ e, lookupAttributeMap (evaluateOn path attrs) (peer.mapsFor path) = .error e)

section Spares

variable {C : Type} {peer : PeerConf} {path : RoutePath} {attrs : List (Attr (List AsSegment) C)}

theorem reachValue_isOk_iff [Netaddr] :
    (∃ reach, reachValue peer path = .ok reach) ↔
      (path.isIpv4Path = true ∨ (peer.nextHopFor path).length = addrSize path.routeFamily.afi) := by
  simp only [reachValue]
  split
  · rename_i h
    simp [h]
  · rename_i h
    split
    · rename_i hlen
      simp [hlen]
    · rename_i hlen
      simp [h, hlen]

theorem added_of_not_isOk [Netaddr] (h : ¬∃ first, firstAttrsOf peer path attrs = .ok first) :
    added peer path attrs = [] := by
  cases hfirst : firstAttrsOf peer path attrs with
  | error e => exact added_of_error hfirst
  | ok first => exact absurd ⟨first, hfirst⟩ h

theorem spares_iff [Netaddr] (hcommunities : getCommunities attrs ≠ none) :
    Spares peer path attrs ↔ added peer path attrs = [] := by
  have hisOk := firstAttrsOf_isOk_iff peer path attrs
  rw [reachValue_isOk_iff] at hisOk
  constructor
  · rintro (h | h | h | h | ⟨hipv4, hlen⟩ | h | h | ⟨hibgp, e, he⟩)
    · simp [added, h]
    · simp [added, h]
    · exact absurd h hcommunities
    · rw [← convertible_eq_nil_iff] at h
      unfold added
      split
      · rfl
      · split
        · exact h
        · rfl
    all_goals
      apply added_of_not_isOk
      rw [hisOk]
    · simp [hipv4, hlen]
    · simp [h]
    · simp [h]
    · simp [hibgp, he]
  · intro hadded
    by_contra hspares
    simp only [Spares, not_or, not_and, not_exists, Bool.not_eq_true] at hspares
    obtain ⟨hwithdraw, hclient, -, hsoo, hreach, horigin, haspath, hmaps⟩ := hspares
    have hok : ∃ first, firstAttrsOf peer path attrs = .ok first := by
      refine hisOk.2 ⟨?_, Option.isSome_iff_ne_none.2 horigin,
        Option.isSome_iff_ne_none.2 haspath, ?_⟩
      · cases hipv4 : path.isIpv4Path with
        | true => exact .inl rfl
        | false => exact .inr (not_not.1 (hreach hipv4))
      · cases hebgp : peer.isEbgpPeer with
        | true => exact .inl rfl
        | false =>
          cases hresult : lookupAttributeMap (evaluateOn path attrs) (peer.mapsFor path) with
          | ok result => exact .inr ⟨result, rfl⟩
          | error e => exact absurd hresult (hmaps hebgp e)
    obtain ⟨first, hfirst⟩ := hok
    rw [added_of_ok hwithdraw hclient hfirst, convertible_eq_nil_iff] at hadded
    exact hsoo hadded

end Spares

/-- The attributes of the path are as they were before the calls, and so is the UPDATE for every
peer. -/
def Unaffected [Netaddr] (path : RoutePath) (peers : List PeerConf) (heap : Heap) : Prop :=
  path.attrs (afterCalls path peers heap) = path.attrs heap ∧
    ∀ peer, built peer path (afterCalls path peers heap) = built peer path heap

section Unaffected

variable {path : RoutePath} {heap heap' : Heap} {cs : List ExtendedCommunity}

theorem attrs_of_leaves_nil (hin : path.In heap) (h : Leaves path heap heap' []) :
    path.attrs heap' = path.attrs heap := by
  obtain ⟨hle, hcommunities⟩ := leaves_nil_iff.1 h
  rw [RoutePath.attrs_eq, RoutePath.attrs_eq, hin.readPath_eq hle, hcommunities]

theorem nil_of_attrs_eq (h : Leaves path heap heap' cs)
    (hattrs : path.attrs heap' = path.attrs heap)
    {r : Ref} (hr : getCommunities path.pathAttrMap = some r) : cs = [] := by
  have hread : ∀ heap'' : Heap,
      getCommunities (path.attrs heap'') = some (heap''.communities.read r) := by
    intro heap''
    have hmap := getCommunities_map heap''.readSegs heap''.communities.read path.pathAttrMap
    rw [hr] at hmap
    exact hmap
  have hcommunities := h.2
  rw [hr] at hcommunities
  have heq := congrArg getCommunities hattrs
  rw [hread, hread, hcommunities, Heap.read_extend, Option.some.injEq] at heq
  exact append_right_eq_self.1 heq

/-- Calls leave the path and the later UPDATEs alone only if none of them adds a site of origin. -/
theorem unaffected_iff [Netaddr] (hin : path.In heap) (peers : List PeerConf) :
    Unaffected path peers heap ↔
      ∀ peer ∈ peers, Spares peer path (path.pathAttrMap.map heap.readPath) := by
  have hleaves := afterCalls_leaves hin peers
  have hget : getCommunities (path.pathAttrMap.map heap.readPath) =
      getCommunities path.pathAttrMap :=
    (getCommunities_map heap.readSegs id path.pathAttrMap).trans (Option.map_id_apply)
  have hnil : path.attrs (afterCalls path peers heap) = path.attrs heap →
      Unaffected path peers heap := by
    intro hattrs
    refine ⟨hattrs, fun peer => ?_⟩
    rw [built_eq (hin.mono hleaves.1), built_eq hin, hattrs]
  cases hr : getCommunities path.pathAttrMap with
  | none =>
    have hspares : ∀ peer, Spares peer path (path.pathAttrMap.map heap.readPath) :=
      fun peer => .inr (.inr (.inl (hget.trans hr)))
    refine iff_of_true (hnil ?_) fun peer _ => hspares peer
    refine attrs_of_leaves_nil hin (leaves_nil_iff.2 ⟨hleaves.1, ?_⟩)
    have hcommunities := hleaves.2
    rw [hr] at hcommunities
    exact hcommunities
  | some r =>
    have hne : getCommunities (path.pathAttrMap.map heap.readPath) ≠ none := by
      rw [hget, hr]
      simp
    have hall : (∀ peer ∈ peers, Spares peer path (path.pathAttrMap.map heap.readPath)) ↔
        (peers.flatMap fun peer => added peer path (path.pathAttrMap.map heap.readPath)) = [] := by
      rw [flatMap_eq_nil_iff]
      exact forall₂_congr fun _ _ => spares_iff hne
    rw [hall]
    constructor
    · intro h
      exact nil_of_attrs_eq hleaves h.1 hr
    · intro h
      rw [h] at hleaves
      exact hnil (attrs_of_leaves_nil hin hleaves)

end Unaffected

/-! ## A VPN route to a customer -/

/-- An IPv4 address is mapped to IPv6, and an IPv6 address stays as it is. -/
instance : Netaddr where
  ipNetwork addr masklen :=
    if 0 ≤ masklen ∧ masklen ≤ 8 * addr.length then .ok ⟨addr, masklen.toNat⟩
    else .error (.other "AddrFormatError")
  contains net other := net.covers other.addr && decide (net.prefixlen ≤ other.prefixlen)
  ipv6 addr := if addr.length = 4 then zeros 10 ++ [0xff, 0xff] ++ addr else addr
  ipNetwork_eq_ok_iff addr masklen net := by
    split_ifs with h
    · simp [h, eq_comm]
    · simpa using fun h₀ h₁ => absurd ⟨h₀, h₁⟩ h
  contains_iff net other := by simp

/-- The AS path 65001 and the route target 65000:100. -/
def receivedHeap : Heap where
  segments := ⟨fun _ => .asSequence [65001], 1⟩
  segLists := ⟨fun _ => [0], 1⟩
  communities := ⟨fun _ => [.twoOctetAs 0 2 65000 100], 1⟩

/-- The route 65000:1:10.0.0.0/8 with the label 100. -/
def vpnRoute : RoutePath where
  routeFamily := rfIPv4VPN
  isLocal := false
  nlri := .vpnIp 96 [100] (.twoOctetAs 65000 1) [10, 0, 0, 0]
  pathAttrMap := [.other 0x40 (.origin 0) rfl, .asPath 0x40 0, .extendedCommunities 0xc0 0]
  nexthop := [192, 0, 2, 1]
  isWithdraw := false
  supported := by decide
  routeFamily_nlri := rfl

theorem vpnRoute_in : vpnRoute.In receivedHeap := by
  intro flags value hmem
  simp only [vpnRoute, mem_cons, not_mem_nil, or_false, reduceCtorEq, false_or] at hmem
  cases hmem
  decide

/-- An external peer in the AS 65002 with some sites of origin. -/
def customer (sooList : List Soo) : PeerConf where
  localAs := 65000
  asn := 65000
  remoteAs := 65002
  isRouteServerClient := false
  nextHop := none
  hostBindIp := [192, 0, 2, 254]
  isNextHopSelf := false
  multiExitDisc := none
  sooList := sooList
  attributeMaps := []

theorem unaffected_customers : Unaffected vpnRoute [customer [], customer []] receivedHeap := by
  refine (unaffected_iff vpnRoute_in _).2 ?_
  intro peer hpeer
  have heq : peer = customer [] := by simpa using hpeer
  subst heq
  exact .inr (.inr (.inr (.inl fun soo hsoo => by simp [customer] at hsoo)))

/-- After an UPDATE for a customer with the site of origin 65000:7, that is in the UPDATE for
another one as well. -/
theorem not_unaffected_customer :
    ¬Unaffected vpnRoute [customer [.ofAs 65000 7]] receivedHeap ∧
      (built (customer []) vpnRoute
          (afterCalls vpnRoute [customer [.ofAs 65000 7]] receivedHeap)).map
        (fun update => getCommunities update.pathAttributes) =
        .ok (some [.twoOctetAs 0 2 65000 100, .twoOctetAs 0 3 65000 7]) := by
  constructor
  · intro h
    have hattrs := h.1
    revert hattrs
    decide +kernel
  · decide +kernel

end BebaCtrl.Bgp.ConstructUpdate
