import BebaCtrl.Bgp.Packet
import BebaCtrl.Lib.Struct

/-!
# Serializers of BGP UPDATE messages

The serializers of `bgp.py`, from the prefixes and path attributes up to the message. They are not
only functions of the message: on the way they put the lengths, the flags and the addresses in order
in the message itself (the comments of the source call it a fixup), so that each of them returns its
bytes and what it leaves of the object.

The AS numbers of an AS_PATH have 16 bits, which is what the class packs unless it is told
otherwise.
-/

namespace BebaCtrl.Bgp.Wire

open Struct

/-! ## Prefixes -/

def serializeRouteDist : RouteDistinguisher → PyResult Bytes
  | .twoOctetAs admin assigned => pack [H, H, I] [.int 0, .int admin, .int assigned]
  | .ipv4Address admin assigned => pack [H, s 4, H] [.int 1, .bytes admin, .int assigned]
  | .fourOctetAs admin assigned => pack [H, I, H] [.int 2, .int admin, .int assigned]

/-- The last label is marked as the bottom of the stack, unless it is the one of a withdrawal. -/
def stackLabels (labels : List Nat) : List Nat :=
  let labels := labels.map (· <<< 4)
  match labels.getLast? with
  | none => []
  | some last => if last ≠ withdrawLabel then labels.dropLast ++ [last ||| 1] else labels

def labelsToBin (labels : List Nat) : Bytes := ((stackLabels labels).map (beEncode 3)).flatten

/-- `_to_bin` of the address. The membership class has a serializer of its own, which looks for the
attribute `_origin_as` that nothing sets. -/
def toBin : Nlri → PyResult Bytes
  | .ip _ addr | .ip6 _ addr | .bin _ addr => return addr
  | .labelledIp _ labels addr | .labelledIp6 _ labels addr => return labelsToBin labels ++ addr
  | .vpnIp _ labels routeDist addr | .vpnIp6 _ labels routeDist addr =>
    return labelsToBin labels ++ (← serializeRouteDist routeDist) ++ addr
  | .rtc _ _ => throw .attributeError

/-- The bytes that hold `length` bits, with the bits behind them cleared in the last octet. -/
def cutBin (length : Nat) (bin : Bytes) : PyResult Bytes :=
  let byteLength := (length + 7) / 8
  if length % 8 = 0 then .ok (bin.take byteLength)
  else
    match bin[byteLength - 1]? with
    | none => .error .indexError
    | some octet =>
      .ok (bin.take (byteLength - 1) ++ [octet &&& UInt8.ofNat (0xff00 >>> (length % 8))])

def lengthOf : Nlri → Nat
  | .ip length _ | .ip6 length _ | .bin length _ => length
  | .labelledIp length _ _ | .labelledIp6 length _ _ => length
  | .vpnIp length _ _ _ | .vpnIp6 length _ _ _ => length
  | .rtc _ _ => 96

/-- `self.addr = self._from_bin(bin_addr)` -/
def setAddr (bin : Bytes) : Nlri → PyResult Nlri
  | .ip length _ => return .ip length (← pad bin 4)
  | .ip6 length _ => return .ip6 length (← pad bin 16)
  | .labelledIp length _ _ => do
    let (labels, rest) ← fromBin bin
    return .labelledIp length labels (← pad rest 4)
  | .labelledIp6 length _ _ => do
    let (labels, rest) ← fromBin bin
    return .labelledIp6 length labels (← pad rest 16)
  | .vpnIp length _ _ _ => do
    let (labels, rest) ← fromBin bin
    let (routeDist, addr) ← vpnPrefixFromBin 4 rest
    return .vpnIp length labels routeDist addr
  | .vpnIp6 length _ _ _ => do
    let (labels, rest) ← fromBin bin
    let (routeDist, addr) ← vpnPrefixFromBin 16 rest
    return .vpnIp6 length labels routeDist addr
  | .bin length _ => return .bin length bin
  | .rtc originAs routeTarget => return .rtc originAs routeTarget

def serializeNlri (nlri : Nlri) : PyResult (Bytes × Nlri) := do
  let binAddr ← cutBin (lengthOf nlri) (← toBin nlri)
  let fixed ← setAddr binAddr nlri
  let buf ← pack [B] [.int (lengthOf nlri)]
  return (buf ++ binAddr, fixed)

/-- The bytes of all elements, and the elements as they are left. -/
def serializeAll {α : Type} (serialize : α → PyResult (Bytes × α)) (xs : List α) :
    PyResult (Bytes × List α) := do
  let done ← xs.mapM serialize
  return ((done.map Prod.fst).flatten, done.map Prod.snd)

/-! ## Path attributes -/

/-- Segments without numbers are left out. -/
def serializeSegment (asPackStr : Item) (segment : AsSegment) : PyResult Bytes := do
  let type := match segment with
    | .asSet _ => 1
    | .asSequence _ => 2
  let l := segment.numbers
  if l.length = 0 then return []
  else
    let head ← pack [B, B] [.int type, .int l.length]
    let numbers ← l.mapM fun i => pack [asPackStr] [.int i]
    return head ++ numbers.flatten

def serializeAsPath (asPackStr : Item) (value : List AsSegment) : PyResult Bytes := do
  return (← value.mapM (serializeSegment asPackStr)).flatten

def serializeExtendedCommunity : ExtendedCommunity → PyResult Bytes
  | .twoOctetAs type subtype asNumber localAdministrator => do
    let value ← pack [B, H, I] [.int subtype, .int asNumber, .int localAdministrator]
    pack [B, s 7] [.int type, .bytes value]
  | .ipv4Address type subtype addr localAdministrator => do
    let value ← pack [B, s 4, H] [.int subtype, .bytes addr, .int localAdministrator]
    pack [B, s 7] [.int type, .bytes value]
  | .fourOctetAs type subtype asNumber localAdministrator => do
    let value ← pack [B, I, H] [.int subtype, .int asNumber, .int localAdministrator]
    pack [B, s 7] [.int type, .bytes value]
  | .raw type value => do
    let value ← pack [s 7] [.bytes value]
    pack [B, s 7] [.int type, .bytes value]

/-- The next hop of a VPN route has an empty route distinguisher in front. -/
def serializeMpReach (afi safi : Nat) (nextHop : Bytes) (nlri : List Nlri) :
    PyResult (Bytes × AttrValue) := do
  let nextHopBin :=
    if (⟨afi, safi⟩ : RouteFamily) ∈ [rfIPv4VPN, rfIPv6VPN] then zeros 8 ++ nextHop else nextHop
  let buf ← pack [H, B, B] [.int afi, .int safi, .int nextHopBin.length]
  let (binnlri, nlri) ← serializeAll serializeNlri nlri
  return (buf ++ nextHopBin ++ [0] ++ binnlri, .mpReachNlri afi safi nextHop nlri)

def serializeMpUnreach (afi safi : Nat) (withdrawnRoutes : List Nlri) :
    PyResult (Bytes × AttrValue) := do
  let buf ← pack [H, B] [.int afi, .int safi]
  let (binnlri, nlri) ← serializeAll serializeNlri withdrawnRoutes
  return (buf ++ binnlri, .mpUnreachNlri afi safi nlri)

/-- The value stays as it is. -/
def plain (value : AttrValue) (bin : PyResult Bytes) : PyResult (Bytes × AttrValue) :=
  return (← bin, value)

def serializeValue (attr : AttrValue) : PyResult (Bytes × AttrValue) :=
  match attr with
  | .origin value => plain attr (pack [B] [.int value])
  | .asPath value => plain attr (serializeAsPath H value)
  | .nextHop value | .originatorId value => plain attr (pack [s 4] [.bytes value])
  | .multiExitDisc value | .localPref value => plain attr (pack [I] [.int value])
  | .atomicAggregate => plain attr (pure [])
  | .aggregator asNumber addr => plain attr (pack [H, s 4] [.int asNumber, .bytes addr])
  | .communities communities => plain attr do
    return (← communities.mapM fun comm => pack [I] [.int comm]).flatten
  | .clusterList value => plain attr do
    return (← value.mapM fun clusterId => pack [s 4] [.bytes clusterId]).flatten
  | .mpReachNlri afi safi nextHop nlri => serializeMpReach afi safi nextHop nlri
  | .mpUnreachNlri afi safi withdrawnRoutes => serializeMpUnreach afi safi withdrawnRoutes
  | .extendedCommunities communities => plain attr do
    return (← communities.mapM serializeExtendedCommunity).flatten
  | .as4Path value => plain attr (serializeAsPath I value)
  | .as4Aggregator asNumber addr => plain attr (pack [I, s 4] [.int asNumber, .bytes addr])
  | .unknown _ value => plain attr (pure value)

def attrFlagOptional : Nat := 0x80
def attrFlagTransitive : Nat := 0x40
def attrFlagExtendedLength : Nat := 0x10

/-- `_ATTR_FLAGS`, which the class of the unknown attributes does not set. -/
def attrFlags : AttrValue → Option Nat
  | .origin _ | .asPath _ | .nextHop _ | .localPref _ | .atomicAggregate => some attrFlagTransitive
  | .multiExitDisc _ | .originatorId _ | .clusterList _ | .mpReachNlri .. | .mpUnreachNlri .. =>
    some attrFlagOptional
  | .aggregator .. | .communities _ | .extendedCommunities _ | .as4Path _ | .as4Aggregator .. =>
    some (attrFlagOptional ||| attrFlagTransitive)
  | .unknown .. => none

/-- `flags & ~mask` -/
def clearBits (flags mask : Nat) : Nat := flags ^^^ (flags &&& mask)

/-- The flags of the class, and the one that says how wide the length is. -/
def fixFlags (flags length : Nat) (value : AttrValue) : Nat :=
  let flags :=
    match attrFlags value with
    | some classFlags => clearBits flags (attrFlagOptional ||| attrFlagTransitive) ||| classFlags
    | none => flags
  if length > 255 then flags ||| attrFlagExtendedLength
  else clearBits flags attrFlagExtendedLength

def serializePathAttribute (attr : PathAttribute) : PyResult (Bytes × PathAttribute) := do
  let (value, fixed) ← serializeValue attr.value
  let flags := fixFlags attr.flags value.length attr.value
  let head ← pack [B, B] [.int flags, .int attr.type]
  let len ← pack [if value.length > 255 then H else B] [.int value.length]
  return (head ++ len ++ value, ⟨flags, attr.type, value.length, fixed⟩)

/-! ## Messages -/

/-- `BGPUpdate.serialize_tail` -/
def serializeTail (msg : BgpUpdate) : PyResult (Bytes × BgpUpdate) := do
  let (binroutes, withdrawnRoutes) ← serializeAll serializeNlri msg.withdrawnRoutes
  let (binpathattrs, pathAttributes) ← serializeAll serializePathAttribute msg.pathAttributes
  let (binnlri, nlri) ← serializeAll serializeNlri msg.nlri
  let routesLen ← pack [H] [.int binroutes.length]
  let attrsLen ← pack [H] [.int binpathattrs.length]
  return (routesLen ++ binroutes ++ attrsLen ++ binpathattrs ++ binnlri,
    ⟨binroutes.length, withdrawnRoutes, binpathattrs.length, pathAttributes, nlri⟩)

/-- `BGPMessage.serialize` of an UPDATE message. -/
def serializeUpdate (msg : BgpUpdate) : PyResult (Bytes × BgpMessage Body) := do
  let (tail, fixed) ← serializeTail msg
  let len := 19 + tail.length
  let hdr ← pack [s 16, H, B]
    [.bytes Speaker.messageMarker, .int len, .int bgpMsgUpdate]
  return (hdr ++ tail, ⟨len, bgpMsgUpdate, .update fixed⟩)

end BebaCtrl.Bgp.Wire
