import BebaCtrl.Bgp.Attributes
import BebaCtrl.Bgp.Speaker
import BebaCtrl.Lib.Items

/-!
# Parsers of BGP messages

The parsers of `bgp.py`, from the prefixes, capabilities and path attributes up to the bodies of the
messages. A slice that reaches over the end of its buffer is cut short, as in Python, and
`struct.unpack_from` raises when the buffer is too short for the format.

Packed addresses of a wrong size are refused by `netaddr` with a `struct.error`.
-/

namespace BebaCtrl.Bgp.Wire

/-- The unsigned integer at the bytes from `i` to `j`. -/
def uint (buf : Bytes) (i j : Nat) : Nat := beDecode (slice buf i j)

/-! ## Prefixes -/

/-- The classes of `_ADDR_CLASSES`, and `_BinAddrPrefix` for everything else. -/
inductive AddrClass where
  | ip
  | ip6
  | labelledIp
  | labelledIp6
  | vpnIp
  | vpnIp6
  | rtc
  | bin
  deriving DecidableEq, Repr

def getAddrClass (afi safi : Nat) : AddrClass :=
  match afi, safi with
  | 1, 1 => .ip
  | 2, 1 => .ip6
  | 1, 4 => .labelledIp
  | 2, 4 => .labelledIp6
  | 1, 128 => .vpnIp
  | 2, 128 => .vpnIp6
  | 1, 132 => .rtc
  | _, _ => .bin

def pad (bin : Bytes) (len : Nat) : PyResult Bytes := do
  pyAssert (bin.length ≤ len)
  return bin ++ zeros (len - bin.length)

/-- Only three types are registered; for another one the class is `None`. -/
def parseRouteDist (buf : Bytes) : PyResult RouteDistinguisher := do
  pyAssert (buf.length = 8)
  match uint buf 0 2 with
  | 0 => return .twoOctetAs (uint buf 2 4) (uint buf 4 8)
  | 1 => return .ipv4Address (slice buf 2 6) (uint buf 6 8)
  | 2 => return .fourOctetAs (uint buf 2 6) (uint buf 6 8)
  | _ => throw .attributeError

def withdrawLabel : Nat := 0x800000

def isBottom (label : Nat) : Bool := label % 2 == 1 || label == withdrawLabel

/-- The labels up to the bottom of the stack, and what follows them. -/
def labelsFromBin : Nat → Bytes → PyResult (List Nat × Bytes)
  | 0, _ => .error .structError
  | n + 1, bin =>
    if bin.length < 3 then .error .structError
    else if isBottom (uint bin 0 3) then .ok ([uint bin 0 3], bin.drop 3)
    else
      match labelsFromBin n (bin.drop 3) with
      | .error e => .error e
      | .ok (labels, rest) => .ok (uint bin 0 3 :: labels, rest)

def hasNoLabel (bin : Bytes) : Bool :=
  match labelsFromBin bin.length bin with
  | .error _ => true
  | .ok (labels, _) => !decide (bin.length > 3 * labels.length)

/-- The labels and the rest that is given to `_prefix_from_bin`. -/
def fromBin (bin : Bytes) : PyResult (List Nat × Bytes) :=
  if hasNoLabel bin then .ok ([], bin)
  else
    match labelsFromBin bin.length bin with
    | .error e => .error e
    | .ok (labels, rest) => .ok (labels.map (· >>> 4), rest)

/-- The prefix after its labels, which may have a route distinguisher. -/
def vpnPrefixFromBin (size : Nat) (bin : Bytes) : PyResult (RouteDistinguisher × Bytes) := do
  let rd ← parseRouteDist (bin.take 8)
  return (rd, ← pad (bin.drop 8) size)

def labelledFromBin (size length : Nat) (bin : Bytes) : PyResult (List Nat × Bytes) := do
  let (labels, rest) ← fromBin bin
  let addr ← pad rest size
  pyAssert (length > 24 * labels.length)
  return (labels, addr)

def vpnFromBin (size length : Nat) (bin : Bytes) :
    PyResult (List Nat × RouteDistinguisher × Bytes) := do
  let (labels, rest) ← fromBin bin
  let (rd, addr) ← vpnPrefixFromBin size rest
  pyAssert (length > 24 * labels.length)
  pyAssert (length > 64)
  return (labels, rd, addr)

/-- `_from_bin` and the constructor. A `RouteTargetMembershipNLRI` wants its route target as a
string, and the parser gives it an object. -/
def makeNlri (length : Nat) (bin : Bytes) : AddrClass → PyResult Nlri
  | .ip => return .ip length (← pad bin 4)
  | .ip6 => return .ip6 length (← pad bin 16)
  | .labelledIp => do
    let (labels, addr) ← labelledFromBin 4 length bin
    return .labelledIp length labels addr
  | .labelledIp6 => do
    let (labels, addr) ← labelledFromBin 16 length bin
    return .labelledIp6 length labels addr
  | .vpnIp => do
    let (labels, rd, addr) ← vpnFromBin 4 length bin
    return .vpnIp length labels rd addr
  | .vpnIp6 => do
    let (labels, rd, addr) ← vpnFromBin 16 length bin
    return .vpnIp6 length labels rd addr
  | .rtc => throw .valueError
  | .bin => return .bin length bin

/-- The size of what is unpacked first: the length, or the AS number of the membership class, which
has a parser of its own. -/
def firstSize : AddrClass → Nat
  | .rtc => 4
  | _ => 1

def parseNlri (cls : AddrClass) (buf : Bytes) : PyResult (Nlri × Bytes) :=
  if buf.length < firstSize cls then .error .structError
  else do
    let length := uint buf 0 1
    let rest := buf.drop 1
    let byteLength := (length + 7) / 8
    let nlri ← makeNlri length (rest.take byteLength) cls
    return (nlri, rest.drop byteLength)

/-! ## Optional parameters -/

inductive CapValue where
  | empty
  | unknown (capValue : Bytes)
  | gracefulRestart (flags time : Nat) (tuples : List (Nat × Nat × Nat))
  | fourOctetAsNumber (asNumber : Nat)
  | multiprotocol (afi reserved safi : Nat)
  deriving DecidableEq, Repr

structure Capability where
  capCode : Nat
  capLength : Nat
  value : CapValue
  deriving DecidableEq, Repr

inductive OptParam where
  | unknown (type length : Nat) (value : Bytes)
  | capability (cap : Capability)
  deriving DecidableEq, Repr

def parseTuple (buf : Bytes) : PyResult ((Nat × Nat × Nat) × Bytes) :=
  if buf.length < 4 then .error .structError
  else .ok ((uint buf 0 2, uint buf 2 3, uint buf 3 4), buf.drop 4)

def parseCapValue (code : Nat) (buf : Bytes) : PyResult CapValue :=
  match code with
  | 1 =>
    if buf.length < 4 then .error .structError
    else .ok (.multiprotocol (uint buf 0 2) (uint buf 2 3) (uint buf 3 4))
  | 64 =>
    if buf.length < 2 then .error .structError
    else do
      let tuples ← parseAll parseTuple (buf.drop 2)
      return .gracefulRestart (uint buf 0 2 / 4096) (uint buf 0 2 % 4096) tuples
  | 65 =>
    if buf.length < 4 then .error .structError
    else .ok (.fourOctetAsNumber (uint buf 0 4))
  | 2 | 4 | 70 | 128 => .ok .empty
  | _ => .ok (.unknown buf)

/-- The value that is parsed is not cut at the length of the capability. -/
def parseCapability (buf : Bytes) : PyResult (Capability × Bytes) :=
  if buf.length < 2 then .error .structError
  else do
    let code := uint buf 0 1
    let length := uint buf 1 2
    let value ← parseCapValue code (buf.drop 2)
    return (⟨code, length, value⟩, buf.drop (length + 2))

def bgpOptCapability : Nat := 2

/-- A parameter of capabilities gives all of them. -/
def parseOptValue (type length : Nat) (value : Bytes) : PyResult (List OptParam) :=
  if type = bgpOptCapability then return (← parseAll parseCapability value).map .capability
  else return [.unknown type length value]

def parseOptParam (buf : Bytes) : PyResult (List OptParam × Bytes) :=
  if buf.length < 2 then .error .structError
  else do
    let type := uint buf 0 1
    let length := uint buf 1 2
    let rest := buf.drop 2
    let caps ← parseOptValue type length (rest.take length)
    return (caps, rest.drop length)

/-! ## Path attributes -/

/-- `num_as` numbers of the given size. -/
def parseAsNumbers (size : Nat) : Nat → Bytes → PyResult (List Nat × Bytes)
  | 0, buf => .ok ([], buf)
  | n + 1, buf =>
    if buf.length < size then .error .structError
    else
      match parseAsNumbers size n (buf.drop size) with
      | .error e => .error e
      | .ok (l, rest) => .ok (uint buf 0 size :: l, rest)

def parseAsSegment (size : Nat) (buf : Bytes) : PyResult (AsSegment × Bytes) :=
  if buf.length < 2 then .error .structError
  else
    match parseAsNumbers size (uint buf 1 2) (buf.drop 2) with
    | .error e => .error e
    | .ok (l, rest) =>
      match uint buf 0 1 with
      | 1 => .ok (.asSet l, rest)
      | 2 => .ok (.asSequence l, rest)
      | _ => .error .assertionError

/-- `_is_valid_16bit_as_path`, with a bound on the number of segments. -/
def isValid16bitAsPath : Nat → Bytes → PyResult Bool
  | 0, _ => .ok true
  | _ + 1, [] => .ok true
  | n + 1, b :: buf =>
    if (b :: buf).length < 2 then .error .structError
    else if uint (b :: buf) 0 1 ≠ 1 ∧ uint (b :: buf) 0 1 ≠ 2 then .ok false
    else
      let size := uint (b :: buf) 1 2 * 2
      let rest := (b :: buf).drop 2
      if rest.length < size then .ok false
      else isValid16bitAsPath n (rest.drop size)

/-- The numbers are read with 16 bits when that is possible. -/
def parseAsPath (buf : Bytes) : PyResult (List AsSegment) :=
  match isValid16bitAsPath buf.length buf with
  | .error e => .error e
  | .ok valid => parseAll (parseAsSegment (if valid then 2 else 4)) buf

/-- The elements of four bytes; what is left over is not looked at. -/
def fours : Bytes → List Bytes
  | a :: b :: c :: d :: rest => [a, b, c, d] :: fours rest
  | _ => []

def parseExtendedCommunity (buf : Bytes) : PyResult (ExtendedCommunity × Bytes) :=
  if buf.length < 8 then .error .structError
  else
    let typeHigh := uint buf 0 1
    let comm :=
      match typeHigh &&& 0xbf with
      | 0 => .twoOctetAs typeHigh (uint buf 1 2) (uint buf 2 4) (uint buf 4 8)
      | 1 => .ipv4Address typeHigh (uint buf 1 2) (slice buf 2 6) (uint buf 6 8)
      | 2 => .fourOctetAs typeHigh (uint buf 1 2) (uint buf 2 6) (uint buf 6 8)
      | _ => .raw typeHigh (slice buf 1 8)
    .ok (comm, buf.drop 8)

/-- `bin_to_text` of an address of the given size. -/
def addrOfBin (size : Nat) (bin : Bytes) : PyResult Bytes :=
  if bin.length = size then .ok bin else .error .structError

def nextHopOfBin (afi safi nextHopLen : Nat) (bin : Bytes) : PyResult Bytes :=
  if afi = 2 ∧ safi = 128 then addrOfBin 16 (bin.drop 8)
  else if afi = 1 ∧ safi = 128 then addrOfBin 4 (bin.drop 8)
  else if afi = 1 then addrOfBin 4 bin
  else if afi = 2 then addrOfBin 16 (if nextHopLen = 32 then bin.take 16 else bin)
  else .error .valueError

def parseMpReach (buf : Bytes) : PyResult AttrValue :=
  if buf.length < 4 then .error .structError
  else do
    let afi := uint buf 0 2
    let safi := uint buf 2 3
    let nextHopLen := uint buf 3 4
    let nextHopBin := (buf.drop 4).take nextHopLen
    let rest := (buf.drop 4).drop nextHopLen
    pyAssert (rest.take 1 = [0])
    let nlri ← parseAll (parseNlri (getAddrClass afi safi)) (rest.drop 1)
    let nextHop ← nextHopOfBin afi safi nextHopLen nextHopBin
    return .mpReachNlri afi safi nextHop nlri

def parseMpUnreach (buf : Bytes) : PyResult AttrValue :=
  if buf.length < 3 then .error .structError
  else do
    let afi := uint buf 0 2
    let safi := uint buf 2 3
    let nlri ← parseAll (parseNlri (getAddrClass afi safi)) (buf.drop 3)
    return .mpUnreachNlri afi safi nlri

/-- `parse_value` of an attribute with a format of the given size. -/
def parseFormat (size : Nat) (value : Bytes → AttrValue) (buf : Bytes) : PyResult AttrValue :=
  if buf.length < size then .error .structError else .ok (value buf)

def parseAttrValue (type : Nat) (buf : Bytes) : PyResult AttrValue :=
  match type with
  | 1 => parseFormat 1 (fun buf => .origin (uint buf 0 1)) buf
  | 2 => return .asPath (← parseAsPath buf)
  | 3 => parseFormat 4 (fun buf => .nextHop (slice buf 0 4)) buf
  | 4 => parseFormat 4 (fun buf => .multiExitDisc (uint buf 0 4)) buf
  | 5 => parseFormat 4 (fun buf => .localPref (uint buf 0 4)) buf
  | 6 => return .atomicAggregate
  | 7 => parseFormat 6 (fun buf => .aggregator (uint buf 0 2) (slice buf 2 6)) buf
  | 8 => return .communities ((fours buf).map beDecode)
  | 9 => parseFormat 4 (fun buf => .originatorId (slice buf 0 4)) buf
  | 10 => return .clusterList (fours buf)
  | 14 => parseMpReach buf
  | 15 => parseMpUnreach buf
  | 16 => return .extendedCommunities (← parseAll parseExtendedCommunity buf)
  | 17 => return .as4Path (← parseAll (parseAsSegment 4) buf)
  | 18 => parseFormat 8 (fun buf => .as4Aggregator (uint buf 0 4) (slice buf 4 8)) buf
  | _ => return .unknown type buf

/-- The type of an attribute. -/
def attrType : AttrValue → Nat
  | .origin _ => 1
  | .asPath _ => 2
  | .nextHop _ => 3
  | .multiExitDisc _ => 4
  | .localPref _ => 5
  | .atomicAggregate => 6
  | .aggregator _ _ => 7
  | .communities _ => 8
  | .originatorId _ => 9
  | .clusterList _ => 10
  | .mpReachNlri _ _ _ _ => 14
  | .mpUnreachNlri _ _ _ => 15
  | .extendedCommunities _ => 16
  | .as4Path _ => 17
  | .as4Aggregator _ _ => 18
  | .unknown type _ => type

structure PathAttribute where
  flags : Nat
  type : Nat
  length : Nat
  value : AttrValue
  deriving DecidableEq, Repr

/-- The size of the length, by the flag for extended lengths. -/
def lenSize (flags : Nat) : Nat := if flags &&& 0x10 ≠ 0 then 2 else 1

def parsePathAttribute (buf : Bytes) : PyResult (PathAttribute × Bytes) :=
  if buf.length < 2 then .error .structError
  else
    let flags := uint buf 0 1
    let type := uint buf 1 2
    let size := 2 + lenSize flags
    if buf.length < size then .error .structError
    else do
      let length := uint buf 2 size
      let rest := buf.drop size
      let value ← parseAttrValue type (rest.take length)
      return (⟨flags, type, length, value⟩, rest.drop length)

/-! ## Messages -/

structure BgpOpen where
  version : Nat
  myAs : Nat
  holdTime : Nat
  bgpIdentifier : Bytes
  optParamLen : Nat
  optParam : List OptParam
  deriving DecidableEq, Repr

structure BgpUpdate where
  withdrawnRoutesLen : Nat
  withdrawnRoutes : List Nlri
  totalPathAttributeLen : Nat
  pathAttributes : List PathAttribute
  nlri : List Nlri
  deriving DecidableEq, Repr

inductive Body where
  | bgpOpen (msg : BgpOpen)
  | update (msg : BgpUpdate)
  | notification (errorCode errorSubcode : Nat) (data : Bytes)
  | keepAlive
  | routeRefresh (afi demarcation safi : Nat)
  deriving DecidableEq, Repr

def parseOpen (buf : Bytes) : PyResult BgpOpen :=
  if buf.length < 10 then .error .structError
  else do
    let optParamLen := uint buf 9 10
    let opts ← parseAll parseOptParam ((buf.drop 10).take optParamLen)
    return ⟨uint buf 0 1, uint buf 1 3, uint buf 3 5, slice buf 5 9, optParamLen, opts.flatten⟩

def parseUpdate (buf : Bytes) : PyResult BgpUpdate :=
  if buf.length < 2 then .error .structError
  else
    let withdrawnRoutesLen := uint buf 0 2
    let binroutes := (buf.drop 2).take withdrawnRoutesLen
    let offset := 2 + withdrawnRoutesLen
    if buf.length < offset + 2 then .error .structError
    else do
      let totalPathAttributeLen := uint buf offset (offset + 2)
      let binpathattrs := (buf.drop (offset + 2)).take totalPathAttributeLen
      let binnlri := buf.drop (offset + 2 + totalPathAttributeLen)
      let withdrawnRoutes ← parseAll (parseNlri .ip) binroutes
      let pathAttributes ← parseAll parsePathAttribute binpathattrs
      let nlri ← parseAll (parseNlri .ip) binnlri
      return ⟨withdrawnRoutesLen, withdrawnRoutes, totalPathAttributeLen, pathAttributes, nlri⟩

/-- The numbers of TCP, UDP, ICMPv6, BPDU, OSPF and SCTP in the table of classes that is inherited
from `PacketBase`. -/
def foreignTypes : List Nat := [6, 17, 58, 66, 89, 132]

/-- The parsers by type. For an unknown type the class is `None`. A parser of another protocol
raises what it raises, or returns a tuple that is no dictionary of arguments. -/
def parseBody (type : Nat) (buf : Bytes) : PyResult Body :=
  match type with
  | 1 => return .bgpOpen (← parseOpen buf)
  | 2 => return .update (← parseUpdate buf)
  | 3 =>
    if buf.length < 2 then .error .structError
    else .ok (.notification (uint buf 0 1) (uint buf 1 2) (buf.drop 2))
  | 4 => .ok .keepAlive
  | 5 =>
    if buf.length < 4 then .error .structError
    else .ok (.routeRefresh (uint buf 0 2) (uint buf 2 3) (uint buf 3 4))
  | _ => .error (if type ∈ foreignTypes then .other "foreign parser" else .attributeError)

end BebaCtrl.Bgp.Wire
