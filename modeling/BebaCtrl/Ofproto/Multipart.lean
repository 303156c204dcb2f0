import BebaCtrl.Ofproto.Instructions

/-!
# Multipart replies

The body of a multipart reply is a list of entries of the kind its type announces. An entry that is
one packed structure is kept as the list of its unpacked values, in the order of the attributes; its
length is a constant. The other entries have lists of their own, all driven by length fields off the
wire, down to the actions of a bucket or an instruction.
-/

namespace BebaCtrl

open Struct Py

/-- `rstrip(b'\0')` -/
def rstripZeros (b : Bytes) : Bytes := (b.reverse.dropWhile (· = 0)).reverse

/-- A list of numbers of a fixed size: `while rest: (d,) = unpack(rest); rest = rest[size:]`. -/
def numbersParser (item : Item) (rest : Bytes) : Py (List Nat) :=
  chop (fun r => do
    let [.int d] ← unpackFrom [item] r 0 | Py.raise .valueError
    return (d, item.size)) rest

/-- An entry that is one packed structure, with its constant `length`. -/
def structParser (packStr : Fmt) (length : Nat) (buf : Bytes) (offset : Nat) :
    PyResult (List Val × Nat) := do
  let vals ← unpackFrom packStr buf offset
  return (vals, length)

def ofpDescPackStr : Fmt := [s 256, s 256, s 256, s 32, s 256]

/-- The texts lose their trailing zeros. -/
def descStatsParser (buf : Bytes) (offset : Nat) : PyResult (List Bytes × Nat) := do
  let [.bytes mfrDesc, .bytes hwDesc, .bytes swDesc, .bytes serialNum, .bytes dpDesc] ←
    unpackFrom ofpDescPackStr buf offset | throw .valueError
  return ([mfrDesc, hwDesc, swDesc, serialNum, dpDesc].map rstripZeros, 1056)

def aggregateStatsParser := structParser [Q, Q, I, x 4] 24
def tableStatsParser := structParser [B, x 3, I, Q, Q] 24
def portStatsParser := structParser [I, x 4, Q, Q, Q, Q, Q, Q, Q, Q, Q, Q, Q, Q, I, I] 112
def queueStatsParser := structParser [I, I, Q, Q, Q, I, I] 40
def groupFeaturesStatsParser := structParser [I, I, I, I, I, I, I, I, I, I] 40
def meterFeaturesStatsParser := structParser [I, I, I, B, B, x 2] 16

structure OFPPort where
  portNo : Nat
  hwAddr : String
  name : Bytes
  /-- `config`, `state`, `curr`, `advertised`, `supported`, `peer`, `curr_speed`, `max_speed` -/
  rest : List Val
  deriving DecidableEq, Repr

def ofpPortPackStr : Fmt := [I, x 4, s 6, x 2, s 16, I, I, I, I, I, I, I, I]

def portParser (conv : Addrconv) (buf : Bytes) (offset : Nat) : PyResult (OFPPort × Nat) := do
  let .int portNo :: .bytes hwAddr :: .bytes name :: rest ← unpackFrom ofpPortPackStr buf offset
    | throw .valueError
  return (⟨portNo, conv.mac.binToText hwAddr, rstripZeros name, rest⟩, 64)

structure OFPExperimenterMultipart where
  experimenter : Nat
  expType : Nat
  data : Bytes
  deriving DecidableEq, Repr

/-- The length is the size of another structure, whatever the data. -/
def experimenterMultipartParser (buf : Bytes) (offset : Nat) :
    PyResult (OFPExperimenterMultipart × Nat) := do
  let [.int experimenter, .int expType] ← unpackFrom [I, I] buf offset | throw .valueError
  return (⟨experimenter, expType, buf.drop (offset + 8)⟩, 16)

/-! ## Flow, group and meter statistics -/

structure OFPFlowStats where
  /-- the values in front of the match, `length` first -/
  vals : List Val
  ofpMatch : OFPMatch
  instructions : List (Instruction × Nat)

structure OFPGroupStats where
  vals : List Val
  bucketStats : List (List Val)

structure OFPBucket where
  weight : Nat
  watchPort : Nat
  watchGroup : Nat
  actions : List Action

structure OFPGroupDescStats where
  type : Nat
  groupId : Nat
  buckets : List OFPBucket

structure OFPMeterStats where
  vals : List Val
  bandStats : List (List Val)

/-- A band with the values behind type and length. -/
inductive OFPMeterBand where
  | drop (vals : List Val)
  | dscpRemark (vals : List Val)
  | experimenter (vals : List Val)
  deriving DecidableEq, Repr

structure OFPMeterConfigStats where
  flags : Nat
  meterId : Nat
  bands : List OFPMeterBand

def ofpFlowStats0PackStr : Fmt := [H, B, x 1, I, I, H, H, H, H, x 4, Q, Q, Q]
def ofpGroupStatsPackStr : Fmt := [H, x 2, I, I, x 4, Q, Q, I, I]
def ofpBucketPackStr : Fmt := [H, H, I, I, x 4]
def ofpMeterStatsPackStr : Fmt := [I, H, x 6, I, Q, Q, I, I]

section Conv

variable (conv : Addrconv) (depth : Nat)

def flowStatsParser (buf : Bytes) (offset : Nat) : Py (OFPFlowStats × Nat) := do
  let .int length :: vals ← unpackFrom ofpFlowStats0PackStr buf offset | Py.raise .valueError
  let ofpMatch ← OFPMatch.parser conv buf (offset + 48)
  let matchLength := roundUp (ofpMatch.length.getD 0) 8
  let instructions ← Instruction.listParser conv depth buf (offset + 48 + matchLength)
    (length - (48 + matchLength))
  return (⟨.int length :: vals, ofpMatch, instructions⟩, length)

/-- Bucket counters have a constant size, so the loop advances by sixteen. -/
def groupStatsParser (buf : Bytes) (offset : Nat) : Py (OFPGroupStats × Nat) := do
  let .int length :: vals ← unpackFrom ofpGroupStatsPackStr buf offset | Py.raise .valueError
  let bucketStats ← span (fun o => liftM (structParser [Q, Q] 16 buf o)) (offset + 40)
    (length - 40)
  return (⟨.int length :: vals, bucketStats⟩, length)

def bucketParser (buf : Bytes) (offset : Nat) : Py (OFPBucket × Nat) := do
  let [.int len, .int weight, .int watchPort, .int watchGroup] ←
    unpackFrom ofpBucketPackStr buf offset | Py.raise .valueError
  let actions ← span (Action.parser conv depth buf) (offset + 16) (len - 16)
  return (⟨weight, watchPort, watchGroup, actions⟩, len)

def groupDescStatsParser (buf : Bytes) (offset : Nat) : Py (OFPGroupDescStats × Nat) := do
  let [.int length, .int type, .int groupId] ← unpackFrom [H, B, x 1, I] buf offset
    | Py.raise .valueError
  let buckets ← span (bucketParser conv depth buf) (offset + 8) (length - 8)
  return (⟨type, groupId, buckets⟩, length)

/-- The attribute is called `len` here. -/
def meterStatsParser (buf : Bytes) (offset : Nat) : Py (OFPMeterStats × Nat) := do
  let .int meterId :: .int len :: vals ← unpackFrom ofpMeterStatsPackStr buf offset
    | Py.raise .valueError
  let bandStats ← span (fun o => liftM (structParser [Q, Q] 16 buf o)) (offset + 40) (len - 40)
  return (⟨.int meterId :: .int len :: vals, bandStats⟩, len)

/-- The header is checked against the class, and the class checks again. -/
def meterBandParser (buf : Bytes) (offset : Nat) : PyResult (OFPMeterBand × Nat) := do
  let [.int type, .int len, .int _, .int _] ← unpackFrom [H, H, I, I] buf offset
    | throw .valueError
  let (packStr, make) ← match type with
    | 1 => pure ([H, H, I, I, x 4], OFPMeterBand.drop)
    | 2 => pure ([H, H, I, I, B, x 3], OFPMeterBand.dscpRemark)
    | 0xffff => pure ([H, H, I, I, I], OFPMeterBand.experimenter)
    | _ => throw .keyError
  pyAssert (len = 16)
  let vals ← unpackFrom packStr buf offset
  return (make (vals.drop 2), 16)

def meterConfigStatsParser (buf : Bytes) (offset : Nat) : Py (OFPMeterConfigStats × Nat) := do
  let [.int length, .int flags, .int meterId] ← unpackFrom [H, H, I] buf offset
    | Py.raise .valueError
  let bands ← span (fun o => liftM (meterBandParser buf o)) (offset + 8) (length - 8)
  return (⟨flags, meterId, bands⟩, length)

end Conv

/-! ## Table features -/

/-- An entry of an OXM list; the experimenter classes carry an experimenter id. -/
structure OFPOxmId where
  type : OxmName
  expId : Option Nat
  hasmask : Bool
  length : Nat
  deriving DecidableEq, Repr

inductive OFPTableFeatureProp where
  | unknown (buf : Bytes)
  | instructions (ids : List (Nat × Nat))
  | nextTables (ids : List Nat)
  | actions (ids : List (Nat × Nat))
  | oxm (ids : List OFPOxmId)
  | experimenter (experimenter expType : Nat) (data : List Nat)
  deriving DecidableEq, Repr

structure OFPTableFeaturesStats where
  tableId : Nat
  name : Bytes
  vals : List Val
  /-- Each property with its `type`. -/
  properties : List (Nat × OFPTableFeatureProp)

namespace OFPTableFeatureProp

def getRest (buf : Bytes) : PyResult Bytes := do
  let [.int _, .int length] ← unpackFrom [H, H] buf 0 | throw .valueError
  return slice buf 4 length

/-- `OFPInstructionId.parse` and `OFPActionId.parse`: type and length, and the rest behind that
length. -/
def idParse (buf : Bytes) : PyResult ((Nat × Nat) × Bytes) := do
  let [.int type, .int len] ← unpackFrom [H, H] buf 0 | throw .valueError
  return ((type, len), buf.drop len)

def oxmIdParse (buf : Bytes) : PyResult (OFPOxmId × Bytes) := do
  let [.int oxmWord] ← unpackFrom [I] buf 0 | throw .valueError
  let type ← oxmToUserHeader (.basic (oxmWord >>> 9))
  let rest := buf.drop 4
  if oxmWord >>> 16 = ofpxmcExperimenter then
    let [.int expId] ← unpackFrom [I] rest 0 | throw .valueError
    return (⟨type, some expId, BebaCtrl.hasmask oxmWord, oxmWord &&& 0xff⟩, rest.drop 4)
  else return (⟨type, none, BebaCtrl.hasmask oxmWord, oxmWord &&& 0xff⟩, rest)

def idsParser (buf : Bytes) : Py (List (Nat × Nat)) := do
  let rest ← getRest buf
  chopRest (fun r => liftM (idParse r)) rest

def instructionsParser (buf : Bytes) : Py OFPTableFeatureProp := do
  return instructions (← idsParser buf)

def actionsParser (buf : Bytes) : Py OFPTableFeatureProp := do
  return actions (← idsParser buf)

def nextTablesParser (buf : Bytes) : Py OFPTableFeatureProp := do
  let rest ← getRest buf
  return nextTables (← numbersParser B rest)

def oxmParser (buf : Bytes) : Py OFPTableFeatureProp := do
  let rest ← getRest buf
  return oxm (← chopRest (fun r => liftM (oxmIdParse r)) rest)

def experimenterParser (buf : Bytes) : Py OFPTableFeatureProp := do
  let [.int _, .int length, .int exp, .int expType] ← unpackFrom [H, H, I, I] buf 0
    | Py.raise .valueError
  let data ← numbersParser I (slice buf 12 length)
  return experimenter exp expType data

/-- The class registered for a type of property; `OFPPropUnknown` for the others. -/
def parser (type : Nat) (buf : Bytes) : Py OFPTableFeatureProp :=
  if type = 0 ∨ type = 1 then instructionsParser buf
  else if type = 2 ∨ type = 3 then nextTablesParser buf
  else if 4 ≤ type ∧ type ≤ 7 then actionsParser buf
  else if type = 8 ∨ type = 10 ∨ (12 ≤ type ∧ type ≤ 15) then oxmParser buf
  else if type = 0xfffe ∨ type = 0xffff then experimenterParser buf
  else pure (unknown buf)

/-- `OFPPropBase.parse`: the next property starts behind the padded length. -/
def parse (buf : Bytes) : Py ((Nat × OFPTableFeatureProp) × Bytes) := do
  let [.int type, .int length] ← unpackFrom [H, H] buf 0 | Py.raise .valueError
  let prop ← parser type buf
  return ((type, prop), buf.drop (roundUp length 8))

end OFPTableFeatureProp

def ofpTableFeaturesPackStr : Fmt := [H, B, x 5, s 32, Q, Q, I, I]

def tableFeaturesStatsParser (buf : Bytes) (offset : Nat) : Py (OFPTableFeaturesStats × Nat) := do
  let .int length :: .int tableId :: .bytes name :: vals ←
    unpackFrom ofpTableFeaturesPackStr buf offset | Py.raise .valueError
  let properties ← chopRest OFPTableFeatureProp.parse
    (slice buf (offset + 64) (offset + length))
  return (⟨tableId, rstripZeros name, vals, properties⟩, length)

/-! ## Replies -/

inductive StatsBody where
  | desc (texts : List Bytes)
  | flow (stats : OFPFlowStats)
  | aggregate (vals : List Val)
  | table (vals : List Val)
  | portStats (vals : List Val)
  | queue (vals : List Val)
  | group (stats : OFPGroupStats)
  | groupDesc (stats : OFPGroupDescStats)
  | groupFeatures (vals : List Val)
  | meter (stats : OFPMeterStats)
  | meterConfig (stats : OFPMeterConfigStats)
  | meterFeatures (vals : List Val)
  | tableFeatures (stats : OFPTableFeaturesStats)
  | portDesc (port : OFPPort)
  | experimenter (body : OFPExperimenterMultipart)

/-- The body of a reply: the first entry for the types with a single structure, or the list. -/
inductive ReplyBody where
  | single (entry : StatsBody)
  | list (entries : List StatsBody)

structure OFPMultipartReply where
  type : Nat
  flags : Nat
  body : ReplyBody

/-- An entry as a body of its kind. -/
def asBody {α : Type} (f : α → StatsBody) (p : Bytes → Nat → Py (α × Nat)) (buf : Bytes)
    (offset : Nat) : Py (StatsBody × Nat) := do
  let (a, len) ← p buf offset
  return (f a, len)

/-- The parser of the entries of a registered type, and whether the body is a single structure. -/
def statsMsgType (conv : Addrconv) (depth : Nat) :
    Nat → Option ((Bytes → Nat → Py (StatsBody × Nat)) × Bool)
  | 0 => some (asBody .desc fun b o => liftM (descStatsParser b o), true)
  | 1 => some (asBody .flow (flowStatsParser conv depth), false)
  | 2 => some (asBody .aggregate fun b o => liftM (aggregateStatsParser b o), true)
  | 3 => some (asBody .table fun b o => liftM (tableStatsParser b o), false)
  | 4 => some (asBody .portStats fun b o => liftM (portStatsParser b o), false)
  | 5 => some (asBody .queue fun b o => liftM (queueStatsParser b o), false)
  | 6 => some (asBody .group groupStatsParser, false)
  | 7 => some (asBody .groupDesc (groupDescStatsParser conv depth), false)
  | 8 => some (asBody .groupFeatures fun b o => liftM (groupFeaturesStatsParser b o), true)
  | 9 => some (asBody .meter meterStatsParser, false)
  | 10 => some (asBody .meterConfig meterConfigStatsParser, false)
  | 11 => some (asBody .meterFeatures fun b o => liftM (meterFeaturesStatsParser b o), false)
  | 12 => some (asBody .tableFeatures tableFeaturesStatsParser, false)
  | 13 => some (asBody .portDesc fun b o => liftM (portParser conv b o), false)
  | 0xffff => some (asBody .experimenter fun b o => liftM (experimenterMultipartParser b o), true)
  | _ => none

/-- `OFPMultipartReply.parser` -/
def multipartReplyParser (conv : Addrconv) (depth : Nat) (h : Header) (buf : Bytes) :
    Py OFPMultipartReply := do
  let [.int type, .int flags] ← unpackFrom [H, H, x 4] buf 8 | Py.raise .valueError
  match statsMsgType conv depth type with
  -- `super(OFPMultipartReply, None)` has no `parser`
  | none => Py.raise .attributeError
  | some (bodyParser, bodySingleStruct) =>
    let body ← span (bodyParser buf) 16 (h.msgLen - 16)
    match bodySingleStruct, body with
    | true, [] => Py.raise .indexError
    | true, entry :: _ => return ⟨type, flags, .single entry⟩
    | false, entries => return ⟨type, flags, .list entries⟩

end BebaCtrl
