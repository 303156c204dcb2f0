import Mathlib.Data.Finset.Basic
import BebaCtrl.Beba.Builders
import BebaCtrl.Lib.State

/-!
# The Open vSwitch wrapper

`OVSDatapath` overrides `send_msg` so that a Beba application can drive a switch without Beba
support. A stateful stage becomes two flow tables, the state table `2t` and the flow table `2t + 1`.
Configuration messages turn into entries of the state table, set-state actions into learn actions,
and matches on the state into matches on a register.

Python enumerates a set in an order of its own; here the specifications of a learn action stand in
the order in which they were added.
-/

namespace BebaCtrl

open Struct List

structure OVSDatapath where
  lookupScope : Scope
  updateScope : Scope
  flowSpecMatchDict : Nat → Option (List NXFlowSpec)
  statefulStagesInUse : Finset Nat
  xid : Nat
  /-- the messages handed to the switch, oldest first -/
  sent : List Message

/-- The attributes that `Beba2OVSWrapper` gives a datapath. -/
def beba2OVSWrapper (xid : Nat) : OVSDatapath :=
  ⟨fun _ => none, fun _ => none, fun _ => none, ∅, xid, []⟩

abbrev OvsM := PyM OVSDatapath

def getStateTableId (tableId : Nat) : Nat := 2 * tableId

def getFlowTableId (tableId : Nat) : Nat := 2 * tableId + 1

def reg0 : OxmName := .named "reg0"
def reg1 : OxmName := .named "reg1"

/-- `OFPP_IN_PORT` of OpenFlow 1.0, which fits the 16 bits of a resubmit action. -/
def ofppInPort10 : Nat := 0xfff8

variable {dp dp' : OVSDatapath}

namespace OVSDatapath

/-! ## Keys -/

def hex2 (n : Nat) : String := String.ofList [Nat.digitChar (n / 16), Nat.digitChar (n % 16)]

def macFields : List Nat :=
  [oxmTlvHeader 4 6, oxmTlvHeader 3 6, oxmTlvHeader 24 6, oxmTlvHeader 25 6, oxmTlvHeader 32 6,
    oxmTlvHeader 33 6]

def ipv4Fields : List Nat :=
  [oxmTlvHeader 11 4, oxmTlvHeader 12 4, oxmTlvHeader 22 4, oxmTlvHeader 23 4]

def ipv6Fields : List Nat := [oxmTlvHeader 26 16, oxmTlvHeader 27 16, oxmTlvHeader 31 16]

def ipv6Text : List Nat → List String
  | a :: b :: rest => (hex2 a ++ hex2 b) :: ipv6Text rest
  | _ => []

/-- The bytes of a key field as a match value; widths without a branch give `None`. -/
def bytesToMatchValue (field : Nat) (fieldValue : List Nat) : PyResult (Option UserVal) :=
  if field ∈ macFields then
    if fieldValue.length = 6 then .ok (some (.text (":".intercalate (fieldValue.map hex2))))
    else .error .structError
  else if field ∈ ipv4Fields then
    if fieldValue.length = 4 then .ok (some (.text (".".intercalate (fieldValue.map toString))))
    else .error .typeError
  else if field ∈ ipv6Fields then
    if fieldValue.length = 16 then .ok (some (.text (":".intercalate (ipv6Text fieldValue))))
    else .error .structError
  else if fieldValue.length = 8 ∨ fieldValue.length = 4 ∨ fieldValue.length = 2 ∨
      fieldValue.length = 1 then
    .ok (some (.int (fieldValue.foldl (fun acc b => acc * 256 + b) 0)))
  else .ok none

/-- The match that a field requires, by table 11 of the OpenFlow 1.3 specification. -/
def options : List (Nat × String × Nat) :=
  [(oxmTlvHeader 11 4, "eth_type", 0x800), (oxmTlvHeader 12 4, "eth_type", 0x800),
    (oxmTlvHeader 13 2, "ip_proto", 6), (oxmTlvHeader 14 2, "ip_proto", 6),
    (oxmTlvHeader 15 2, "ip_proto", 17), (oxmTlvHeader 16 2, "ip_proto", 17),
    (oxmTlvHeader 17 2, "ip_proto", 132), (oxmTlvHeader 18 2, "ip_proto", 132),
    (oxmTlvHeader 19 1, "ip_proto", 1), (oxmTlvHeader 20 1, "ip_proto", 1),
    (oxmTlvHeader 21 2, "eth_type", 0x0806), (oxmTlvHeader 22 4, "eth_type", 0x0806),
    (oxmTlvHeader 23 4, "eth_type", 0x0806), (oxmTlvHeader 24 6, "eth_type", 0x0806),
    (oxmTlvHeader 25 6, "eth_type", 0x0806), (oxmTlvHeader 26 16, "eth_type", 0x86dd),
    (oxmTlvHeader 27 16, "eth_type", 0x86dd), (oxmTlvHeader 28 4, "eth_type", 0x86dd),
    (oxmTlvHeader 29 1, "ip_proto", 58), (oxmTlvHeader 30 1, "ip_proto", 58),
    (oxmTlvHeader 32 6, "icmpv6_type", 135), (oxmTlvHeader 33 6, "icmpv6_type", 136),
    (oxmTlvHeader 37 3, "eth_type", 0x88E7), (oxmTlvHeader 39 2, "eth_type", 0x86dd)]

/-- Set the value of a key of a dictionary. -/
def dictSet {α : Type} (key : OxmName) (value : α) : List (OxmName × α) → List (OxmName × α)
  | [] => [(key, value)]
  | (k, v) :: d => if k = key then (k, value) :: d else (k, v) :: dictSet key value d

def addPrereqMatchToDict (lookupScope : List Nat) (d : List (OxmName × UserValue)) :
    List (OxmName × UserValue) :=
  lookupScope.foldl (fun d field =>
    match options.lookup field with
    | some (oxmName, value) => dictSet (.named oxmName) (.int value, none) d
    | none => d) d

/-- `OFPMatchField._FIELDS_HEADERS[f](f, 0, 0).oxm_len()` -/
def oxmLen (f : Nat) : PyResult Nat :=
  match fieldsHeaders.lookup f with
  | some _ => .ok (f &&& 0xff)
  | none => .error .keyError

/-- The subfield that starts at the first bit of the field with header `f`. -/
def subfieldOf (f : Nat) : PyResult (OxmName × Nat) := do
  let buf ← pack [I, H] [.int f, .int 0]
  NXFlowSpec.parseSubfield buf

/-- The key of a message, cut into the fields of the lookup scope. A value `None` is refused when
the match is serialized; here it is refused at once. -/
def lookupFields (data : Bytes) : List Nat → Nat → List (OxmName × UserValue) →
    PyResult (List (OxmName × UserValue))
  | [], _, d => .ok d
  | f :: fields, offset, d => do
    let fieldBytesNum ← oxmLen f
    let (fieldName, _) ← subfieldOf f
    let key ← unpackEach B data offset fieldBytesNum
    let some value ← bytesToMatchValue f key | throw .typeError
    lookupFields data fields (offset + fieldBytesNum) (dictSet fieldName (value, none) d)

/-! ## Specifications of the learn action -/

def addSpec (tableId : Nat) (spec : NXFlowSpec) : OvsM Unit :=
  modify fun dp =>
    let specs := (dp.flowSpecMatchDict tableId).getD []
    let specs := if spec ∈ specs then specs else specs ++ [spec]
    { dp with flowSpecMatchDict := Function.update dp.flowSpecMatchDict tableId (some specs) }

def addPrereqMatch (tableId : Nat) (oxmName : String) (value : Nat) : OvsM Unit := do
  let buf ← NXFlowSpec.serializeSubfield (.named oxmName) 0
  let [.int oxmField] ← unpack [I] (buf.take 4) | throw .valueError
  let len ← oxmLen oxmField
  addSpec tableId ⟨.immediate value, .matchField (.named oxmName) 0, len * 8⟩

/-- The fields of the lookup scope from position `idx` on, each against its partner in the update
scope. -/
def addScopes (tableId : Nat) : List Nat → Nat → OvsM Unit
  | [], _ => pure ()
  | field :: fields, idx => do
    let len ← oxmLen field
    let dp ← get
    let some updateFields := dp.updateScope tableId | throw .keyError
    let some updateField := updateFields[idx]? | throw .indexError
    let (srcName, srcOfs) ← subfieldOf updateField
    let (dstName, dstOfs) ← subfieldOf field
    addSpec tableId ⟨.subfield srcName srcOfs, .matchField dstName dstOfs, len * 8⟩
    -- whatever adding the prerequisite raises is ignored
    match options.lookup field with
    | some (oxmName, value) =>
      tryCatch (addPrereqMatch tableId oxmName value) fun _ => pure ()
    | none => pure ()
    addScopes tableId fields (idx + 1)

/-- The match specifications of a table, kept once they are there. -/
def generateNXFlowSpecMatchAndPrereq (tableId : Nat) : OvsM (List NXFlowSpec) := do
  let dp ← get
  match dp.flowSpecMatchDict tableId with
  | some (spec :: specs) => return spec :: specs
  | _ =>
    modify fun dp =>
      { dp with flowSpecMatchDict := Function.update dp.flowSpecMatchDict tableId (some []) }
    let some lookupFields := dp.lookupScope tableId | throw .keyError
    addScopes tableId lookupFields 0
    let dp ← get
    return (dp.flowSpecMatchDict tableId).getD []

/-- The digits of `'{0:032b}'.format(v)`. -/
def bits32 (v : Nat) : List Bool := (List.range 32).map fun i => v.testBit (31 - i)

/-- Start and end of the longest runs of ones; `start` is where the current run began. -/
def onesRuns : List Bool → Nat → Option Nat → List (Nat × Nat)
  | [], _, none => []
  | [], pos, some start => [(start, pos - 1)]
  | true :: bits, pos, none => onesRuns bits (pos + 1) (some pos)
  | true :: bits, pos, some start => onesRuns bits (pos + 1) (some start)
  | false :: bits, pos, none => onesRuns bits (pos + 1) none
  | false :: bits, pos, some start => (start, pos - 1) :: onesRuns bits (pos + 1) none

/-- `int(digits, 2)` -/
def ofBits (bits : List Bool) : Nat := bits.foldl (fun acc b => 2 * acc + b.toNat) 0

/-- The loads that bring the bits of `state` under `stateMask` into the first register. -/
def generateNXFlowSpecLoad (state stateMask : Nat) : List NXFlowSpec :=
  if stateMask = 0xffffffff then [⟨.immediate state, .load reg0 0, 32⟩]
  else if stateMask = 0 then [⟨.subfield reg0 0, .load reg0 0, 32⟩]
  else
    let maskedState := bits32 (state &&& stateMask)
    ⟨.subfield reg0 0, .load reg0 0, 32⟩ ::
      (onesRuns (bits32 stateMask) 0 none).map fun (s, e) =>
        ⟨.immediate (ofBits ((maskedState.drop s).take (e + 1 - s))),
          .load reg0 (31 - e), e - s + 1⟩

/-! ## Sending -/

section Conv

variable (conv : Addrconv)

def maxXid : Nat := 0xffffffff

/-- The transaction id of a message, a new one unless it has one. -/
def xidOf (msg : Message) : OvsM Nat :=
  match msg.xid with
  | some xid => pure xid
  | none => do
    modify fun dp => { dp with xid := (dp.xid + 1) &&& maxXid }
    let dp ← get
    return dp.xid

/-- `Datapath.send_msg` -/
def superSendMsg (msg : Message) : OvsM Unit := do
  let xid ← xidOf msg
  let _ ← msg.serialize conv xid
  modify fun dp => { dp with sent := dp.sent ++ [msg] }

/-- The "control flow" miss of a state table: mark the packet, look up its state, go on to the flow
table. -/
def sendControlFlow (tableId : Nat) : OvsM Unit := do
  let ofpMatch ← OFPMatch.ofKwargs conv [(reg1, .int 0, none)]
  let actions : List Action := [.setField reg1 (.int 1),
    .resubmitTable ofppInPort10 (getStateTableId tableId),
    .resubmitTable ofppInPort10 (getFlowTableId tableId)]
  superSendMsg conv (.flowMod
    { tableId := getStateTableId tableId
      priority := 10
      ofpMatch := ofpMatch
      instructions := [.actions ofpitApplyActions actions] })

/-- The "return DEFAULT state" miss of a state table. -/
def sendReturnDefault (tableId : Nat) : OvsM Unit := do
  let ofpMatch ← OFPMatch.ofKwargs conv [(reg1, .int 1, none)]
  superSendMsg conv (.flowMod
    { tableId := getStateTableId tableId
      priority := 10
      ofpMatch := ofpMatch
      instructions := [.actions ofpitApplyActions [.setField reg0 (.int 0)]] })

def addStage (tableId : Nat) : OvsM Unit :=
  modify fun dp => { dp with statefulStagesInUse := insert tableId dp.statefulStagesInUse }

def statefulTableConfig (data : Bytes) : OvsM Unit := do
  let [.int tableId, .int _] ← unpack ofpExpStateModStatefulTableConfigPackStr (slice data 2 4)
    | throw .valueError
  sendControlFlow conv tableId
  sendReturnDefault conv tableId
  addStage tableId

/-- Append `count` fields to a scope, one at a time. -/
def appendFields (put : List Nat → OVSDatapath → OVSDatapath) (data : Bytes) :
    List Nat → Nat → Nat → OvsM Unit
  | _, _, 0 => pure ()
  | fields, offset, count + 1 => do
    let [.int field] ← unpack [I] (slice data offset (offset + 4)) | throw .valueError
    modify (put (fields ++ [field]))
    appendFields put data (fields ++ [field]) (offset + 4) count

def keyExtractor (command : Nat) (data : Bytes) : OvsM Unit := do
  let [.int tableId, .int count] ← unpack ofpExpStateModExtractorPackStr (slice data 2 14)
    | throw .valueError
  let put (fields : List Nat) (dp : OVSDatapath) : OVSDatapath :=
    if command = ofpscExpSetLExtractor then
      { dp with lookupScope := dp.lookupScope.set tableId fields }
    else { dp with updateScope := dp.updateScope.set tableId fields }
  if count > 0 then
    modify (put [])
    appendFields put data [] 14 count

/-- The match on a marked packet with the key that stands in a message behind `offset` bytes. -/
def keyMatch (data : Bytes) (tableId offset : Nat) : OvsM OFPMatch := do
  let dp ← get
  let some scope := dp.lookupScope tableId | throw .keyError
  let d ← lookupFields data scope offset []
  let d := addPrereqMatchToDict scope d
  -- a keyword given twice
  if (d.lookup reg1).isSome then throw .typeError
  OFPMatch.ofKwargs conv ((reg1, .int 1, none) :: d)

def setFlowState (data : Bytes) : OvsM Unit := do
  let [.int tableId, .int keyCount, .int state, .int _, .int _, .int _, .int _, .int _] ←
    unpack ofpExpStateModSetFlowStatePackStr (slice data 2 34) | throw .valueError
  if keyCount > 0 then
    let ofpMatch ← keyMatch conv data tableId 34
    let actions : List Action := [.setField reg1 (.int 0), .setField reg0 (.int state)]
    superSendMsg conv (.flowMod
      { tableId := getStateTableId tableId
        priority := 100
        outPort := ofppAny
        outGroup := ofpgAny
        ofpMatch := ofpMatch
        instructions := [.actions ofpitApplyActions actions] })

def delFlowState (data : Bytes) : OvsM Unit := do
  let [.int tableId, .int keyCount] ←
    unpack ofpExpStateModDelFlowStatePackStr (slice data 2 10) | throw .valueError
  if keyCount > 0 then
    let ofpMatch ← keyMatch conv data tableId 10
    superSendMsg conv (.flowMod
      { tableId := getStateTableId tableId
        command := ofpfcDelete
        priority := 100
        outPort := ofppAny
        outGroup := ofpgAny
        ofpMatch := ofpMatch
        instructions := [] })

/-- A state modification by its command; unknown commands go to the switch as they are. -/
def sendCommand (msg : OFPExperimenter) (command : Nat) (data : Bytes) : OvsM Unit :=
  if command = ofpscExpStatefulTableConfig then statefulTableConfig conv data
  else if command = ofpscExpSetLExtractor ∨ command = ofpscExpSetUExtractor then
    keyExtractor command data
  else if command = ofpscExpSetFlowState then setFlowState conv data
  else if command = ofpscExpDelFlowState then delFlowState conv data
  else if command = ofpscExpSetGlobalState ∨ command = ofpscExpResetGlobalState then pure ()
  else superSendMsg conv (.experimenter msg)

def sendStateMod (msg : OFPExperimenter) : OvsM Unit := do
  let some data := msg.data | throw .typeError
  let [.int command] ← unpack ofpExpStateModPackStr (data.take 2) | throw .valueError
  sendCommand conv msg command data

/-! ### Flow-mod and group-mod -/

/-- The learn action for a set-state action. -/
def learnAction (state stateMask tableId : Nat) : OvsM Action := do
  let specs ← generateNXFlowSpecMatchAndPrereq tableId
  return .learn (getStateTableId tableId)
    ([⟨.immediate 1, .matchField reg1 0, 32⟩, ⟨.immediate 0, .load reg1 0, 32⟩] ++ specs ++
      generateNXFlowSpecLoad state stateMask) 0 0 100 0 0 0 0

/-- State, mask and table of a Beba action that sets a state, `none` for the other ones. -/
def decodeSetState (data : Option Bytes) : PyResult (Option (Nat × Nat × Nat)) := do
  let some data := data | throw .typeError
  let [.int actType] ← unpack [I] (data.take 4) | throw .valueError
  if actType = ofpatExpSetState then
    let [.int _, .int state, .int stateMask, .int tableId, .int _, .int _, .int _, .int _] ←
      unpack ofpExpActionSetStatePackStr (data.take 40) | throw .valueError
    return some (state, stateMask, tableId)
  else return none

/-- What stands for an action in the filtered list: a learn action for a set-state action, nothing
for the other Beba actions. -/
def filterAction (act : Action) : OvsM (List Action) :=
  match act with
  | .experimenterUnknown experimenter data =>
    if experimenter = bebaExperimenterId then do
      match ← decodeSetState data with
      | some (state, stateMask, tableId) =>
        let learn ← learnAction state stateMask tableId
        return [learn]
      | none => return []
    else return [act]
  | _ => return [act]

def filterActions : List Action → OvsM (List Action)
  | [] => return []
  | act :: acts => do
    let filtered ← filterAction act
    let rest ← filterActions acts
    return filtered ++ rest

/-- The stage of a goto-table gets its control-flow miss unless it is in use. -/
def ensureStage (tableId : Nat) : OvsM Unit := do
  let dp ← get
  if tableId ∉ dp.statefulStagesInUse then do
    sendControlFlow conv tableId
    addStage tableId
  else pure ()

def translateInstruction : Instruction → OvsM Instruction
  | .actions type acts =>
    if type = ofpitWriteActions ∨ type = ofpitApplyActions then do
      let acts ← filterActions acts
      return .actions type acts
    else return .actions type acts
  | .gotoTable tableId => do
    ensureStage conv tableId
    return .gotoTable (getStateTableId tableId)
  | instr => return instr

def translateInstructions : List Instruction → OvsM (List Instruction)
  | [] => return []
  | instr :: instrs => do
    let instr ← translateInstruction conv instr
    let instrs ← translateInstructions instrs
    return instr :: instrs

/-- The state is matched in the first register, the global state not at all. -/
def translateField : OxmName × UserValue → Option (OxmName × UserValue)
  | (name, value) =>
    if name = .named "state" then some (reg0, value)
    else if name = .named "global_state" then none
    else some (name, value)

def translateFlowMod (msg : OFPFlowMod) : OvsM OFPFlowMod := do
  let instructions ← translateInstructions conv msg.instructions
  return { msg with
    tableId := getFlowTableId msg.tableId
    ofpMatch := { msg.ofpMatch with fields2 := msg.ofpMatch.fields2.filterMap translateField }
    instructions := instructions }

def translateBuckets : List OFPBucket → OvsM (List OFPBucket)
  | [] => return []
  | bucket :: buckets => do
    let acts ← filterActions bucket.actions
    let buckets ← translateBuckets buckets
    return { bucket with actions := acts } :: buckets

/-- `OVSDatapath.send_msg` -/
def sendMsg : Message → OvsM Unit
  | .experimenter msg =>
    if msg.experimenter = bebaExperimenterId ∧ msg.expType = ofptExpStateMod then
      sendStateMod conv msg
    else superSendMsg conv (.experimenter msg)
  | .experimenterStatsRequest msg =>
    if msg.experimenter = bebaExperimenterId then pure ()
    else superSendMsg conv (.experimenterStatsRequest msg)
  | .flowMod msg => do
    let msg ← translateFlowMod conv msg
    superSendMsg conv (.flowMod msg)
  | .groupMod msg => do
    let buckets ← translateBuckets msg.buckets
    superSendMsg conv (.groupMod { msg with buckets := buckets })
  | msg => superSendMsg conv msg

end Conv

theorem superSendMsg_ok {conv : Addrconv}
    {msg : Message} (h : superSendMsg conv msg dp = (.ok (), dp')) :
    dp'.sent = dp.sent ++ [msg] := by
  obtain ⟨xid, dp₁, hxid, h⟩ := PyM.bind_eq_ok.1 h
  obtain ⟨_, dp₂, hser, h⟩ := PyM.bind_eq_ok.1 h
  obtain ⟨-, rfl⟩ := PyM.lift_eq_ok.1 hser
  cases h
  have hsent : dp₁.sent = dp.sent := by
    unfold xidOf at hxid
    cases hx : msg.xid <;> rw [hx] at hxid <;> cases hxid <;> rfl
  exact congrArg (· ++ [msg]) hsent

/-! ## Decoding what the builders encode -/

end OVSDatapath

/-- The arguments of `OFPExpActionSetState`. -/
structure SetStateArgs where
  state : Nat
  tableId : Nat
  bit : Nat := 0
  hardTimeout : Nat := 0
  idleTimeout : Nat := 0
  hardRollback : Nat := 0
  idleRollback : Nat := 0
  stateMask : Nat := 0xffffffff

def SetStateArgs.action (a : SetStateArgs) : PyResult Action :=
  expActionSetState a.state a.tableId a.bit a.hardTimeout a.idleTimeout a.hardRollback
    a.idleRollback a.stateMask

/-- The actions of a list of instructions. -/
def actionsOf (instrs : List Instruction) : List Action :=
  instrs.flatMap fun
    | .actions _ acts => acts
    | _ => []

/-- The actions that a message carries. -/
def Message.actions : Message → List Action
  | .flowMod m => actionsOf m.instructions
  | .groupMod m => m.buckets.flatMap OFPBucket.actions
  | _ => []

namespace OVSDatapath

variable {conv : Addrconv}

/-- A learn action into the state table of the stage that loads the given state under its mask. -/
def IsLearn (a : SetStateArgs) (learn : Action) : Prop :=
  ∃ specs, learn = .learn (getStateTableId a.tableId)
    ([⟨.immediate 1, .matchField reg1 0, 32⟩, ⟨.immediate 0, .load reg1 0, 32⟩] ++ specs ++
      generateNXFlowSpecLoad a.state a.stateMask) 0 0 100 0 0 0 0

/-- Sending a key-extract message for a lookup or update scope ends with the scope set. -/
def DecodesKeyExtract (conv : Addrconv) (dp : OVSDatapath) (command : Nat) (fields : List Nat)
    (tableId bit : Nat) : Prop :=
  ∃ msg scope dp', expMsgKeyExtract (some dp.lookupScope) command fields tableId bit =
      .ok (msg, some scope) ∧
    sendMsg conv (.experimenter msg) { dp with lookupScope := scope } = (.ok (), dp') ∧
    (command = ofpscExpSetLExtractor ∧ dp'.lookupScope tableId = some fields ∨
      command = ofpscExpSetUExtractor ∧ dp'.updateScope tableId = some fields)

/-- Sending a message with a set-state action ends with the message handed to the switch, a learn
action for the state in place of the set-state action. -/
def TranslatesSetState (conv : Addrconv) (dp : OVSDatapath) (msg : Message) (a : SetStateArgs)
    (act : Action) : Prop :=
  ∃ dp' msg', sendMsg conv msg dp = (.ok (), dp') ∧ dp'.sent.getLast? = some msg' ∧
    act ∉ msg'.actions ∧ ∃ learn ∈ msg'.actions, IsLearn a learn

/-- A state modification reaches the branch of its command, with the data it was built from. -/
theorem sendMsg_stateMod (conv : Addrconv) {command : Nat} {r : PyResult Bytes}
    {msg : OFPExperimenter} (h : stateMod command r = .ok msg) :
    ∃ rest, r = .ok rest ∧ sendMsg conv (.experimenter msg) =
      sendCommand conv msg command (encode ofpExpStateModPackStr [.int command] ++ rest) := by
  obtain ⟨rest, hrest, hread, rfl⟩ := stateMod_ok h
  refine ⟨rest, hrest, ?_⟩
  simp only [sendMsg, and_self, if_true, sendStateMod, hread]
  rfl

/-- The extractor has three values, which do not go into two names. -/
theorem keyExtractor_raises {command : Nat} {data : Bytes} :
    keyExtractor command data dp ≠ (.ok (), dp') := by
  intro h
  obtain ⟨vals, dp₁, hvals, h⟩ := PyM.bind_eq_ok.1 h
  unfold unpack at hvals
  split at hvals
  · cases hvals
    cases h
  · cases hvals

/-- The set-state action has nine values, which do not go into eight names: no state is decoded. -/
theorem decodeSetState_ne_some (data : Option Bytes) (r : Nat × Nat × Nat) :
    decodeSetState data ≠ .ok (some r) := by
  intro h
  cases data with
  | none => cases h
  | some data =>
    obtain ⟨vals, htype, h⟩ := bind_eq_ok.1 h
    unfold unpack at htype
    split at htype <;> cases htype
    simp only [decode] at h
    split at h
    · obtain ⟨vals, hvals, h⟩ := bind_eq_ok.1 h
      unfold unpack at hvals
      split at hvals <;> cases hvals
      cases h
    · cases h

variable {a : SetStateArgs} {act : Action}

section

variable (h : a.action = .ok act)
include h

theorem filterAction_setState (dp : OVSDatapath) :
    filterAction act dp = (.error .valueError, dp) := by
  obtain ⟨data, hdata, h⟩ := bind_eq_ok.1 h
  cases h
  obtain ⟨hfit, rfl⟩ := pack_ok_iff.1 hdata
  set data := encode ofpExpActionSetStatePackStr _
  have htype : unpack [I] (data.take 4) = .ok [.int ofpatExpSetState] := by
    rfl
  have hvals : unpack ofpExpActionSetStatePackStr (data.take 40) =
      .ok (decode ofpExpActionSetStatePackStr (data.take 40)) := if_pos rfl
  have hdecode : decodeSetState (some data) = .error .valueError := by
    simp only [decodeSetState, htype, hvals]
    rfl
  simp only [filterAction, if_true, hdecode]
  rfl

theorem filterActions_raises {acts filtered : List Action} (hmem : act ∈ acts) :
    filterActions acts dp ≠ (.ok filtered, dp') := by
  intro hok
  induction acts generalizing dp dp' filtered with
  | nil => cases hmem
  | cons b acts ih =>
    obtain ⟨_, dp₁, hb, hok⟩ := PyM.bind_eq_ok.1 hok
    obtain ⟨_, dp₂, hacts, -⟩ := PyM.bind_eq_ok.1 hok
    rcases mem_cons.1 hmem with rfl | hmem
    · rw [filterAction_setState h] at hb
      cases hb
    · exact ih hmem hacts

/-- A set-state action survives only in an instruction that the wrapper does not look into. -/
theorem mem_translateInstructions {instrs instrs' : List Instruction}
    (hok : translateInstructions conv instrs dp = (.ok instrs', dp'))
    (hmem : act ∈ actionsOf instrs) :
    act ∈ actionsOf instrs' := by
  induction instrs generalizing dp dp' instrs' with
  | nil => cases hmem
  | cons instr instrs ih =>
    obtain ⟨instr', dp₁, hinstr, hok⟩ := PyM.bind_eq_ok.1 hok
    obtain ⟨instrs₁, dp₂, hinstrs, hok⟩ := PyM.bind_eq_ok.1 hok
    cases hok
    rw [actionsOf, flatMap_cons, mem_append] at hmem ⊢
    refine hmem.imp (fun hmem => ?_) fun hmem => ih hinstrs hmem
    cases instr with
    | actions type acts =>
      by_cases htype : type = ofpitWriteActions ∨ type = ofpitApplyActions
      · rw [translateInstruction, if_pos htype] at hinstr
        obtain ⟨_, dp₃, hacts, -⟩ := PyM.bind_eq_ok.1 hinstr
        exact absurd hacts (filterActions_raises h hmem)
      · rw [translateInstruction, if_neg htype] at hinstr
        cases hinstr
        exact hmem
    | _ => cases hmem

theorem translateBuckets_raises {buckets buckets' : List OFPBucket}
    (hmem : act ∈ buckets.flatMap OFPBucket.actions) :
    translateBuckets buckets dp ≠ (.ok buckets', dp') := by
  intro hok
  induction buckets generalizing dp dp' buckets' with
  | nil => cases hmem
  | cons bucket buckets ih =>
    obtain ⟨_, dp₁, hacts, hok⟩ := PyM.bind_eq_ok.1 hok
    obtain ⟨_, dp₂, hbuckets, -⟩ := PyM.bind_eq_ok.1 hok
    rw [flatMap_cons, mem_append] at hmem
    rcases hmem with hmem | hmem
    · exact filterActions_raises h hmem hacts
    · exact ih hmem hbuckets

end

theorem not_decodesKeyExtract (conv : Addrconv) (dp : OVSDatapath) (command : Nat)
    (fields : List Nat) (tableId bit : Nat) :
    ¬DecodesKeyExtract conv dp command fields tableId bit := by
  rintro ⟨msg, scope, dp', hmsg, hsend, hcommand⟩
  obtain ⟨msg', hmsg', hmsg⟩ := bind_eq_ok.1 hmsg
  have hmsg : msg' = msg := by
    split at hmsg <;> cases hmsg <;> rfl
  subst hmsg
  obtain ⟨data, -, hdispatch⟩ := sendMsg_stateMod conv hmsg'
  have hor : command = ofpscExpSetLExtractor ∨ command = ofpscExpSetUExtractor :=
    hcommand.imp And.left And.left
  have hne : command ≠ ofpscExpStatefulTableConfig := by
    rcases hor with rfl | rfl <;> decide
  rw [hdispatch, sendCommand, if_neg hne, if_pos hor] at hsend
  exact keyExtractor_raises hsend

theorem not_translatesSetState (conv : Addrconv) (dp : OVSDatapath) {msg : Message}
    (h : a.action = .ok act) (hmem : act ∈ msg.actions) :
    ¬TranslatesSetState conv dp msg a act := by
  rintro ⟨dp', msg', hsend, hlast, hnot, -⟩
  cases msg with
  | flowMod fm =>
    obtain ⟨fm', dp₁, hfm, hsend⟩ := PyM.bind_eq_ok.1 hsend
    obtain ⟨instrs, dp₂, hinstrs, hfm⟩ := PyM.bind_eq_ok.1 hfm
    cases hfm
    rw [superSendMsg_ok hsend, getLast?_concat] at hlast
    cases hlast
    exact hnot (mem_translateInstructions h hinstrs hmem)
  | groupMod gm =>
    obtain ⟨buckets, dp₁, hbuckets, -⟩ := PyM.bind_eq_ok.1 hsend
    exact translateBuckets_raises h hmem hbuckets
  | _ => cases hmem

/-- The wrapper decodes no key-extract message and translates no set-state action, whatever the
arguments, the message around the action and the state of the datapath. -/
theorem sendMsg_never_decodes (conv : Addrconv) (dp : OVSDatapath) :
    (∀ command fields tableId bit, ¬DecodesKeyExtract conv dp command fields tableId bit) ∧
      ∀ (a : SetStateArgs) (act : Action) (msg : Message), a.action = .ok act →
        act ∈ msg.actions → ¬TranslatesSetState conv dp msg a act :=
  ⟨not_decodesKeyExtract conv dp, fun _ _ _ h hmem => not_translatesSetState conv dp h hmem⟩

/-- A flow-mod for stage 0 that applies one action. -/
def applyOne (act : Action) : Message :=
  .flowMod {
    ofpMatch := ⟨ofpmtOxm, none, [], []⟩
    instructions := [.actions ofpitApplyActions [act]] }

/-- Setting state 1 of stage 0 is not translated. -/
theorem sendMsg_never_decodes_setState :
    ∃ act, SetStateArgs.action ⟨1, 0, 0, 0, 0, 0, 0, 0xffffffff⟩ =
    .ok act ∧ ¬TranslatesSetState OFPMatch.latin1Addrconv (beba2OVSWrapper 0) (applyOne act)
      ⟨1, 0, 0, 0, 0, 0, 0, 0xffffffff⟩ act :=
  ⟨_, rfl, (sendMsg_never_decodes _ _).2 _ _ _ rfl mem_cons_self⟩

/-- The source address as lookup scope of table 0, and state 1 for stage 0, raise `ValueError`. -/
theorem sendMsg_raises_valueError :
    (∃ msg scope, expMsgKeyExtract (some (beba2OVSWrapper 0).lookupScope) ofpscExpSetLExtractor
        [oxmTlvHeader 4 6] 0 0 = .ok (msg, some scope) ∧
      (sendMsg OFPMatch.latin1Addrconv (.experimenter msg)
        { beba2OVSWrapper 0 with lookupScope := scope }).1 = .error .valueError) ∧
    (∃ act, SetStateArgs.action ⟨1, 0, 0, 0, 0, 0, 0, 0xffffffff⟩ = .ok act ∧
      (sendMsg OFPMatch.latin1Addrconv (applyOne act) (beba2OVSWrapper 0)).1 =
        .error .valueError) ∧
    ¬DecodesKeyExtract OFPMatch.latin1Addrconv (beba2OVSWrapper 0) ofpscExpSetLExtractor
      [oxmTlvHeader 4 6] 0 0 :=
  ⟨⟨_, _, rfl, rfl⟩, ⟨_, rfl, rfl⟩, not_decodesKeyExtract _ _ _ _ _ _⟩

end OVSDatapath

end BebaCtrl
