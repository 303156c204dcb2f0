import BebaCtrl.Lib.Codec
import BebaCtrl.Ofproto.Match

/-!
# Actions

The actions of OpenFlow 1.3 and the Nicira actions carried by its experimenter action. Most
registered actions are one packed structure of a fixed size; set-field carries an OXM field padded
to eight bytes; an experimenter action carries data whose length is announced rounded up to eight
although no padding is written.

Conntrack actions hold actions again. The parser of a nested list is a parameter of the parser
(`parserWith`), and `parser` ties the knot as often as the recursion limit of the interpreter
allows.

Serializing is relocatable (`serialize_rounded`): what an action writes and announces does not
depend on the buffer or the offset. `Regular.encodes` is the round trip.
-/

namespace BebaCtrl

open Struct List

/-! ## Flow specifications of the learn action -/

inductive FlowSpecSrc where
  | subfield (field : OxmName) (ofs : Nat)
  | immediate (value : Nat)
  deriving DecidableEq, Repr

/-- The destination, which is also the class of the specification. -/
inductive FlowSpecDst where
  | matchField (field : OxmName) (ofs : Nat)
  | load (field : OxmName) (ofs : Nat)
  | output
  deriving DecidableEq, Repr

def FlowSpecSrc.srcType : FlowSpecSrc → Nat
  | .subfield _ _ => 0
  | .immediate _ => 1

def FlowSpecDst.dstType : FlowSpecDst → Nat
  | .matchField _ _ => 0
  | .load _ _ => 1
  | .output => 2

structure NXFlowSpec where
  src : FlowSpecSrc
  dst : FlowSpecDst
  nBits : Nat
  deriving DecidableEq, Repr

namespace NXFlowSpec

/-- The number of bytes of an immediate of `nBits` bits. -/
def immediateLen (nBits : Nat) : Nat := (nBits + 15) / 16 * 2

def parseSubfield (buf : Bytes) : PyResult (OxmName × Nat) := do
  let (n, len) ← oxmParseHeader buf 0
  pyAssert (len = 4)
  let field ← oxmToUserHeader n
  let [.int ofs] ← unpackFrom [H] (buf.drop len) 0 | throw .valueError
  return (field, ofs)

def serializeSubfield (field : OxmName) (ofs : Nat) : PyResult Bytes := do
  let n ← oxmFromUserHeader field
  let (buf, _) ← oxmSerializeHeader n [] 0
  pyAssert (buf.length = 4)
  msgPackInto [H] buf 4 [.int ofs]

def parseSrc (srcType nBits : Nat) (rest : Bytes) : PyResult (FlowSpecSrc × Bytes) :=
  if srcType = 0 then do
    let (field, ofs) ← parseSubfield rest
    return (.subfield field ofs, rest.drop 6)
  else
    let srcLen := immediateLen nBits
    if (rest.take srcLen).length < srcLen then .error .typeError
    else .ok (.immediate (beDecode (rest.take srcLen)), rest.drop srcLen)

def parseDst (dstType : Nat) (rest : Bytes) : PyResult (FlowSpecDst × Bytes) :=
  match dstType with
  | 0 => do
    let (field, ofs) ← parseSubfield rest
    return (.matchField field ofs, rest.drop 6)
  | 1 => do
    let (field, ofs) ← parseSubfield rest
    return (.load field ofs, rest.drop 6)
  | _ => .ok (.output, rest)

/-- A specification and the rest of the buffer; an all-zero header is padding. -/
def parse (buf : Bytes) : PyResult (Option NXFlowSpec × Bytes) := do
  let [.int hdr] ← unpackFrom [H] buf 0 | throw .valueError
  let rest := buf.drop 2
  if hdr = 0 then return (none, rest)
  let srcType := (hdr >>> 13) &&& 0x1
  let dstType := (hdr >>> 11) &&& 0x3
  let nBits := hdr &&& 0x3ff
  -- `_subclasses[dst_type]`
  if dstType = 3 then throw .keyError
  let (src, rest) ← parseSrc srcType nBits rest
  let (dst, rest) ← parseDst dstType rest
  return (some ⟨src, dst, nBits⟩, rest)

def serializeSrc (nBits : Nat) : FlowSpecSrc → PyResult Bytes
  | .subfield field ofs => serializeSubfield field ofs
  | .immediate value => .ok (beEncode (immediateLen nBits) value)

def serializeDst : FlowSpecDst → PyResult Bytes
  | .matchField field ofs | .load field ofs => serializeSubfield field ofs
  | .output => .ok []

def serialize (self : NXFlowSpec) : PyResult Bytes := do
  let val := (self.src.srcType <<< 13) ||| (self.dst.dstType <<< 11) ||| self.nBits
  let buf ← msgPackInto [H] [] 0 [.int val]
  let src ← serializeSrc self.nBits self.src
  let dst ← serializeDst self.dst
  return buf ++ src ++ dst

end NXFlowSpec

/-! ## Actions -/

inductive Action where
  | output (port maxLen : Nat)
  | group (groupId : Nat)
  | setQueue (queueId : Nat)
  | setMplsTtl (mplsTtl : Nat)
  | decMplsTtl
  | setNwTtl (nwTtl : Nat)
  | decNwTtl
  | copyTtlOut
  | copyTtlIn
  | pushVlan (ethertype : Nat)
  | pushMpls (ethertype : Nat)
  | popVlan
  | popMpls (ethertype : Nat)
  | pushPbb (ethertype : Nat)
  | popPbb
  | setField (key : OxmName) (value : UserVal)
  | experimenterUnknown (experimenter : Nat) (data : Option Bytes)
  | regMove (srcField dstField : OxmName) (nBits srcOfs dstOfs : Nat)
  | learn (tableId : Nat) (specs : List NXFlowSpec)
      (idleTimeout hardTimeout priority cookie flags finIdleTimeout finHardTimeout : Nat)
  | conjunction (clause nClauses id : Nat)
  | resubmitTable (inPort tableId : Nat)
  | ct (flags zoneSrc zoneOfsNbits recircTable alg : Nat) (actions : List Action)
  deriving Repr

def ofpActionHeaderPackStr : Fmt := [H, H, x 4]
def ofpActionOutputPackStr : Fmt := [H, H, I, H, x 6]
def ofpActionGroupPackStr : Fmt := [H, H, I]
def ofpActionSetQueuePackStr : Fmt := [H, H, I]
def ofpActionMplsTtlPackStr : Fmt := [H, H, B, x 3]
def ofpActionNwTtlPackStr : Fmt := [H, H, B, x 3]
def ofpActionPushPackStr : Fmt := [H, H, H, x 2]
def ofpActionPopMplsPackStr : Fmt := [H, H, H, x 2]
def ofpActionExperimenterHeaderPackStr : Fmt := [H, H, I]

def ofpatSetField : Nat := 25
def ofpatExperimenter : Nat := 0xffff

def nxastRegMove : Nat := 6
def nxastResubmitTable : Nat := 14
def nxastLearn : Nat := 16
def nxastConjunction : Nat := 34
def nxastCt : Nat := 35

namespace Action

/-- The registered actions of a fixed layout. -/
def layout : Action → Option FixedLayout
  | output port maxLen => some ⟨0, ofpActionOutputPackStr, [port, maxLen]⟩
  | copyTtlOut => some ⟨11, ofpActionHeaderPackStr, []⟩
  | copyTtlIn => some ⟨12, ofpActionHeaderPackStr, []⟩
  | setMplsTtl mplsTtl => some ⟨15, ofpActionMplsTtlPackStr, [mplsTtl]⟩
  | decMplsTtl => some ⟨16, ofpActionHeaderPackStr, []⟩
  | pushVlan ethertype => some ⟨17, ofpActionPushPackStr, [ethertype]⟩
  | popVlan => some ⟨18, ofpActionHeaderPackStr, []⟩
  | pushMpls ethertype => some ⟨19, ofpActionPushPackStr, [ethertype]⟩
  | popMpls ethertype => some ⟨20, ofpActionPopMplsPackStr, [ethertype]⟩
  | setQueue queueId => some ⟨21, ofpActionSetQueuePackStr, [queueId]⟩
  | group groupId => some ⟨22, ofpActionGroupPackStr, [groupId]⟩
  | setNwTtl nwTtl => some ⟨23, ofpActionNwTtlPackStr, [nwTtl]⟩
  | decNwTtl => some ⟨24, ofpActionHeaderPackStr, []⟩
  | pushPbb ethertype => some ⟨26, ofpActionPushPackStr, [ethertype]⟩
  | popPbb => some ⟨27, ofpActionHeaderPackStr, []⟩
  | setField _ _ | experimenterUnknown _ _ | regMove _ _ _ _ _ | learn _ _ _ _ _ _ _ _ _ |
    conjunction _ _ _ | resubmitTable _ _ | ct _ _ _ _ _ _ => none

/-- Pack string and constructor of the class registered for a type with a fixed layout. -/
def fixedClass : Nat → Option (Fmt × (List Val → PyResult Action))
  | 0 => some (ofpActionOutputPackStr, fun
      | [.int port, .int maxLen] => .ok (output port maxLen)
      | _ => .error .valueError)
  | 11 => some (ofpActionHeaderPackStr, nullary copyTtlOut)
  | 12 => some (ofpActionHeaderPackStr, nullary copyTtlIn)
  | 15 => some (ofpActionMplsTtlPackStr, unary setMplsTtl)
  | 16 => some (ofpActionHeaderPackStr, nullary decMplsTtl)
  | 17 => some (ofpActionPushPackStr, unary pushVlan)
  | 18 => some (ofpActionHeaderPackStr, nullary popVlan)
  | 19 => some (ofpActionPushPackStr, unary pushMpls)
  | 20 => some (ofpActionPopMplsPackStr, unary popMpls)
  | 21 => some (ofpActionSetQueuePackStr, unary setQueue)
  | 22 => some (ofpActionGroupPackStr, unary group)
  | 23 => some (ofpActionNwTtlPackStr, unary setNwTtl)
  | 24 => some (ofpActionHeaderPackStr, nullary decNwTtl)
  | 26 => some (ofpActionPushPackStr, unary pushPbb)
  | 27 => some (ofpActionHeaderPackStr, nullary popPbb)
  | _ => none
where
  nullary (a : Action) : List Val → PyResult Action
    | [] => .ok a
    | _ => .error .valueError
  unary (f : Nat → Action) : List Val → PyResult Action
    | [.int v] => .ok (f v)
    | _ => .error .valueError

/-- A fixed layout is registered under its type, with a constructor that gives the action back. -/
theorem fixedClass_layout {a : Action} {l : FixedLayout} (h : a.layout = some l) :
    (∃ make, fixedClass l.type = some (l.packStr, make) ∧ make (l.args.map .int) = .ok a) ∧
      ∃ tail, l.packStr = H :: H :: tail ∧ 4 ≤ calcsize tail ∧ 0 < l.len ∧ 8 ∣ l.len := by
  cases a <;> cases h <;>
    exact ⟨⟨_, rfl, rfl⟩, _, rfl, by decide, by simp only [FixedLayout.len]; decide,
      by simp only [FixedLayout.len]; decide⟩

/-! ### Serializing -/

/-- The header and payload that the Nicira actions share. -/
def nxSerialize (subtype : Nat) (data : Bytes) : Writer := fun buf offset => do
  let len := roundUp (8 + 2 + data.length) 8
  let buf ← msgPackInto ofpActionExperimenterHeaderPackStr buf offset
    [.int ofpatExperimenter, .int len, .int nxExperimenterId]
  let buf ← msgPackInto [H] buf (offset + 8) [.int subtype]
  let buf ← msgPackInto [s data.length] buf (offset + 10) [.bytes data]
  return (buf, len)

def regMoveData (srcField dstField : OxmName) (nBits srcOfs dstOfs : Nat) : PyResult Bytes := do
  let data ← msgPackInto [H, H, H] [] 0 [.int nBits, .int srcOfs, .int dstOfs]
  let n ← oxmFromUserHeader srcField
  let (data, _) ← oxmSerializeHeader n data data.length
  let n ← oxmFromUserHeader dstField
  let (data, _) ← oxmSerializeHeader n data data.length
  return data

def learnPackStr : Fmt := [H, H, H, Q, H, B, x 1, H, H]

def learnData (tableId : Nat) (specs : List NXFlowSpec)
    (idleTimeout hardTimeout priority cookie flags finIdleTimeout finHardTimeout : Nat) :
    PyResult Bytes := do
  let data ← msgPackInto learnPackStr [] 0 [.int idleTimeout, .int hardTimeout, .int priority,
    .int cookie, .int flags, .int tableId, .int finIdleTimeout, .int finHardTimeout]
  specs.foldlM (fun data spec => do return data ++ (← spec.serialize)) data

def conjunctionPackStr : Fmt := [B, B, I]
def resubmitTablePackStr : Fmt := [H, B, x 3]
def ctPackStr : Fmt := [H, I, H, B, x 3, H]

/-- The OXM field of a set-field action, then its header, then the padding. -/
def setFieldSerialize (conv : Addrconv) (key : OxmName) (value : UserVal) : Writer :=
  fun buf offset => do
    let (n, value, mask) ← oxmFromUser conv key (value, none)
    let (buf, oxmLen) ← oxmSerialize n value mask buf (offset + 4)
    let len := roundUp (4 + oxmLen) 8
    let buf ← msgPackInto [H, H] buf offset [.int ofpatSetField, .int len]
    let padLen := len - (4 + oxmLen)
    let buf ← msgPackInto [x padLen] buf (offset + 4 + oxmLen) []
    return (buf, len)

/-- The length is that of the padded data, but no padding is written. -/
def experimenterUnknownSerialize (experimenter : Nat) (data : Option Bytes) : Writer :=
  fun buf offset => do
    let len := roundUp (data.getD []).length 8 + 8
    let buf ← msgPackInto ofpActionExperimenterHeaderPackStr buf offset
      [.int ofpatExperimenter, .int len, .int experimenter]
    match data with
    -- `len(self.data)`
    | none => throw .typeError
    | some data =>
      let buf ← msgPackInto [s data.length] buf (offset + 8) [.bytes data]
      return (buf, len)

mutual

/-- Write an action; the result is the buffer and the action's `len`. -/
def serialize (conv : Addrconv) : Action → Writer
  | setField key value, buf, offset => setFieldSerialize conv key value buf offset
  | experimenterUnknown experimenter data, buf, offset =>
    experimenterUnknownSerialize experimenter data buf offset
  | regMove srcField dstField nBits srcOfs dstOfs, buf, offset => do
    let data ← regMoveData srcField dstField nBits srcOfs dstOfs
    nxSerialize nxastRegMove data buf offset
  | learn tableId specs idle hard priority cookie flags finIdle finHard, buf, offset => do
    let data ← learnData tableId specs idle hard priority cookie flags finIdle finHard
    nxSerialize nxastLearn data buf offset
  | conjunction clause nClauses id, buf, offset => do
    let data ← msgPackInto conjunctionPackStr [] 0 [.int clause, .int nClauses, .int id]
    nxSerialize nxastConjunction data buf offset
  | resubmitTable inPort tableId, buf, offset => do
    let data ← msgPackInto resubmitTablePackStr [] 0 [.int inPort, .int tableId]
    nxSerialize nxastResubmitTable data buf offset
  | ct flags zoneSrc zoneOfsNbits recircTable alg actions, buf, offset => do
    let data ← msgPackInto ctPackStr [] 0
      [.int flags, .int zoneSrc, .int zoneOfsNbits, .int recircTable, .int alg]
    let data ← serializeNested conv actions data
    nxSerialize nxastCt data buf offset
  | a, buf, offset =>
    match a.layout with
    | some l => l.write buf offset
    | none => throw .attributeError

/-- Conntrack appends each of its actions to the end of its data. -/
def serializeNested (conv : Addrconv) : List Action → Bytes → PyResult Bytes
  | [], data => .ok data
  | a :: actions, data => do
    let (data, _) ← serialize conv a data data.length
    serializeNested conv actions data

end

/-! ### Parsing -/

def fixedParser (packStr : Fmt) (make : List Val → PyResult Action) (buf : Bytes) (offset : Nat) :
    PyResult (Action × Nat) := do
  let vals ← unpackFrom packStr buf offset
  let a ← make (vals.drop 2)
  return (a, calcsize packStr)

/-- The constructor refuses a value with a mask. -/
def setFieldParser (conv : Addrconv) (buf : Bytes) (offset : Nat) : PyResult (Action × Nat) := do
  let [.int _, .int len] ← unpackFrom [H, H, x 4] buf offset | throw .valueError
  let (n, value, mask, _) ← oxmParse buf (offset + 4)
  let (k, uv) ← oxmToUser conv n value mask
  pyAssert (uv.2 = none)
  -- the field of the old interface
  let _ ← matchFieldParser buf (offset + 4)
  return (setField k uv.1, len)

def regMoveParse (buf : Bytes) : PyResult Action := do
  let [.int nBits, .int srcOfs, .int dstOfs] ← unpackFrom [H, H, H] buf 0 | throw .valueError
  let rest := buf.drop 6
  let (n, len) ← oxmParseHeader rest 0
  let srcField ← oxmToUserHeader n
  let rest := rest.drop len
  let (n, _) ← oxmParseHeader rest 0
  let dstField ← oxmToUserHeader n
  return regMove srcField dstField nBits srcOfs dstOfs

def learnParse (buf : Bytes) : Py Action := do
  let [.int idle, .int hard, .int priority, .int cookie, .int flags, .int tableId, .int finIdle,
    .int finHard] ← unpackFrom learnPackStr buf 0 | Py.raise .valueError
  let specs ← Py.chopRest (fun r => liftM (NXFlowSpec.parse r)) (buf.drop (calcsize learnPackStr))
  return learn tableId (specs.filterMap id) idle hard priority cookie flags finIdle finHard

def conjunctionParse (buf : Bytes) : PyResult Action := do
  let [.int clause, .int nClauses, .int id] ← unpackFrom conjunctionPackStr buf 0
    | throw .valueError
  return conjunction clause nClauses id

def resubmitTableParse (buf : Bytes) : PyResult Action := do
  let [.int inPort, .int tableId] ← unpackFrom resubmitTablePackStr buf 0 | throw .valueError
  return resubmitTable inPort tableId

section Nested

/-! The parser for the actions inside a conntrack action is a parameter. -/

variable (conv : Addrconv) (nested : Bytes → Nat → Py (Action × Nat))

def ctParse (buf : Bytes) : Py Action := do
  let [.int flags, .int zoneSrc, .int zoneOfsNbits, .int recircTable, .int alg] ←
    unpackFrom ctPackStr buf 0 | Py.raise .valueError
  let actions ← Py.chop (fun r => nested r 0) (buf.drop (calcsize ctPackStr))
  return ct flags zoneSrc zoneOfsNbits recircTable alg actions

/-- `NXAction.parse` -/
def nxParse (buf : Bytes) : Py Action := do
  let [.int subtype] ← unpackFrom [H] buf 0 | Py.raise .valueError
  let rest := buf.drop 2
  if subtype = nxastRegMove then liftM (regMoveParse rest)
  else if subtype = nxastLearn then learnParse rest
  else if subtype = nxastConjunction then liftM (conjunctionParse rest)
  else if subtype = nxastResubmitTable then liftM (resubmitTableParse rest)
  else if subtype = nxastCt then ctParse nested rest
  -- `NXActionUnknown` has no `_subtype`, which its constructor reads
  else Py.raise .attributeError

def experimenterParser (buf : Bytes) (offset : Nat) : Py (Action × Nat) := do
  let [.int _, .int len, .int experimenter] ←
    unpackFrom ofpActionExperimenterHeaderPackStr buf offset | Py.raise .valueError
  let data := slice buf (offset + 8) (offset + len)
  if experimenter = nxExperimenterId then
    let obj ← nxParse nested data
    return (obj, len)
  else return (experimenterUnknown experimenter (some data), len)

def parserWith (buf : Bytes) (offset : Nat) : Py (Action × Nat) := do
  let [.int type, .int _] ← unpackFrom ofpActionHeaderPackStr buf offset | Py.raise .valueError
  match fixedClass type with
  | some (packStr, make) => liftM (fixedParser packStr make buf offset)
  | none =>
    if type = ofpatSetField then liftM (setFieldParser conv buf offset)
    else if type = ofpatExperimenter then experimenterParser nested buf offset
    else Py.raise .assertionError

end Nested

/-- `OFPAction.parser`: the action and its `len`. `depth` is how many conntrack actions may be
nested before the interpreter gives up. -/
def parser (conv : Addrconv) : Nat → Bytes → Nat → Py (Action × Nat)
  | 0 => parserWith conv fun _ _ => Py.raise (.other "RuntimeError")
  | depth + 1 => parserWith conv (parser conv depth)

/-! ### What an action writes -/

theorem nxSerialize_rounded (subtype : Nat) (data : Bytes) :
    Rounded (nxSerialize subtype data) := by
  let len := roundUp (8 + 2 + data.length) 8
  have h := ((sized_pack [s data.length] [.bytes data] len).pack_bind [H]
    [.int subtype]).pack_bind ofpActionExperimenterHeaderPackStr
    [.int ofpatExperimenter, .int len, .int nxExperimenterId]
  refine h.rounded (congrArg (roundUp · 8) ?_)
  simp only [calcsize, ofpActionExperimenterHeaderPackStr, Item.size]
  omega

theorem experimenterUnknownSerialize_rounded (experimenter : Nat) (data : Option Bytes) :
    Rounded (experimenterUnknownSerialize experimenter data) := by
  let len := roundUp (data.getD []).length 8 + 8
  let hdr : List Val := [.int ofpatExperimenter, .int len, .int experimenter]
  cases data with
  | none =>
    exact ((sized_error (n := 0) .typeError).pack_bind ofpActionExperimenterHeaderPackStr
      hdr).rounded rfl
  | some d =>
    refine ((sized_pack [s d.length] [.bytes d] len).pack_bind ofpActionExperimenterHeaderPackStr
      hdr).rounded ((roundUp_add_self d.length (by decide)).symm.trans (congrArg (roundUp · 8) ?_))
    exact Nat.add_comm d.length 8

/-- Field, header and padding together are one block of the announced length. -/
theorem setFieldSerialize_writes (conv : Addrconv) (key : OxmName) (value : UserVal) :
    Writes (setFieldSerialize conv key value) (do
      let (n, value, mask) ← oxmFromUser conv key (value, none)
      let (tlv, oxmLen) ← oxmSerialize n value mask [] 0
      let len := roundUp (4 + oxmLen) 8
      let hdr ← pack [H, H] [.int ofpatSetField, .int len]
      return (hdr ++ tlv ++ zeros (len - (4 + oxmLen)), len)) := by
  refine writes_bind _ ?_
  rintro ⟨n, v, m⟩ -
  intro buf off
  obtain ⟨r, hw, hlen⟩ := oxmSerialize_writes n v m
  simp only
  rw [← hw.eq_empty, hw]
  cases r with
  | error e => rfl
  | ok p =>
    obtain ⟨tlv, oxmLen⟩ := p
    obtain rfl := hlen tlv oxmLen rfl
    simp only [Except.map, bind, Except.bind, msgPackInto_eq]
    cases hp : pack [H, H] [.int ofpatSetField, .int (roundUp (4 + tlv.length) 8)] with
    | error e => rfl
    | ok hdr =>
      have hhdr : hdr.length = 4 := length_of_pack hp
      have hpad : pack [x (roundUp (4 + tlv.length) 8 - (4 + tlv.length))] [] =
          .ok (zeros (roundUp (4 + tlv.length) 8 - (4 + tlv.length))) := by
        rw [pack_eq_ok rfl]
        simp [encode]
      have hbody := splice_splice_before buf off hdr tlv
      rw [hhdr] at hbody
      have hoff : off + 4 + tlv.length = off + (hdr ++ tlv).length := by
        rw [length_append, hhdr, Nat.add_assoc]
      simp only [hpad, hbody, pure_eq_ok]
      rw [hoff, splice_splice]

theorem setFieldSerialize_rounded (conv : Addrconv) (key : OxmName) (value : UserVal) :
    Rounded (setFieldSerialize conv key value) := by
  refine (setFieldSerialize_writes conv key value).rounded ?_
  intro bs len h
  obtain ⟨⟨n, v, m⟩, -, h⟩ := bind_eq_ok.1 h
  obtain ⟨⟨tlv, oxmLen⟩, ho, h⟩ := bind_eq_ok.1 h
  obtain ⟨hdr, hp, h⟩ := bind_eq_ok.1 h
  obtain ⟨r, hw, hlen⟩ := oxmSerialize_writes n v m
  obtain rfl := hlen tlv oxmLen (hw.eq_empty.trans ho)
  obtain ⟨hf, rfl⟩ := pack_ok_iff.1 hp
  have hle := le_roundUp (4 + tlv.length) (show 0 < 8 by decide)
  have hsize : (encode [H, H] [.int ofpatSetField, .int (roundUp (4 + tlv.length) 8)] ++ tlv ++
      zeros (roundUp (4 + tlv.length) 8 - (4 + tlv.length))).length =
        roundUp (4 + tlv.length) 8 := by
    simp only [length_append, length_encode hf, length_zeros, calcsize, Item.size]
    omega
  cases h
  rw [hsize, roundUp_of_dvd (by decide) (dvd_roundUp _ _)]

/-- Serializing an action is relocatable and announces what it writes, rounded up to eight. -/
theorem serialize_rounded (conv : Addrconv) (a : Action) : Rounded (a.serialize conv) := by
  have hfixed : ∀ {l : FixedLayout}, a.layout = some l → Rounded l.write := by
    intro l hl
    obtain ⟨-, -, -, -, -, hdvd⟩ := fixedClass_layout hl
    exact FixedLayout.write_rounded hdvd
  cases a with
  | setField key value => exact setFieldSerialize_rounded conv key value
  | experimenterUnknown experimenter data =>
    exact experimenterUnknownSerialize_rounded experimenter data
  | regMove => exact rounded_bind _ fun data => nxSerialize_rounded _ data
  | learn => exact rounded_bind _ fun data => nxSerialize_rounded _ data
  | conjunction => exact rounded_bind _ fun data => nxSerialize_rounded _ data
  | resubmitTable => exact rounded_bind _ fun data => nxSerialize_rounded _ data
  | ct flags zoneSrc zoneOfsNbits recircTable alg actions =>
    exact rounded_bind _ fun data => rounded_bind (serializeNested conv actions data) fun data =>
      nxSerialize_rounded _ data
  | _ => exact hfixed rfl

theorem nxSerialize_ok {subtype : Nat} {data : Bytes} (hsub : subtype < 256 ^ 2)
    (hlen : roundUp (8 + 2 + data.length) 8 < 256 ^ 2) :
    ∃ bs, bs.length = 10 + data.length ∧
      nxSerialize subtype data [] 0 = .ok (bs, roundUp (8 + 2 + data.length) 8) := by
  have hhdr : fits ofpActionExperimenterHeaderPackStr [.int ofpatExperimenter,
      .int (roundUp (8 + 2 + data.length) 8), .int nxExperimenterId] = true := by
    simpa [fits, ofpActionExperimenterHeaderPackStr, ofpatExperimenter, nxExperimenterId] using hlen
  have hsubtype : fits [H] [.int subtype] = true := by simpa [fits] using hsub
  have hdata : fits [s data.length] [.bytes data] = true := rfl
  refine ⟨_, ?_, by
    simp only [nxSerialize, msgPackInto_ok hhdr, msgPackInto_ok hsubtype, msgPackInto_ok hdata,
      ok_bind]
    rfl⟩
  simp only [length_splice, length_encode hhdr, length_encode hsubtype, length_encode hdata]
  simp [calcsize, ofpActionExperimenterHeaderPackStr, Item.size]

theorem aligned_resubmitTable (conv : Addrconv) {inPort tableId : Nat} (hport : inPort < 256 ^ 2)
    (htable : tableId < 256) :
    ∃ bs : Bytes, bs.length = 16 ∧ Aligned ((resubmitTable inPort tableId).serialize conv) bs := by
  have hfit : fits resubmitTablePackStr [.int inPort, .int tableId] = true := by
    simpa [fits, resubmitTablePackStr] using ⟨hport, htable⟩
  set data := splice [] 0 (encode resubmitTablePackStr [.int inPort, .int tableId]) with hdata
  have hsize : data.length = 6 := by
    rfl
  obtain ⟨bs, hlen, he⟩ := nxSerialize_ok (show nxastResubmitTable < 256 ^ 2 by decide)
    (show roundUp (8 + 2 + data.length) 8 < 256 ^ 2 by rw [hsize]; decide)
  rw [hsize] at hlen he
  refine ⟨bs, hlen, (serialize_rounded conv _).aligned ?_ hlen⟩
  rw [serialize, msgPackInto_ok hfit]
  exact he

/-! ### The round trip -/

/-- Actions that come back from the wire: the registered ones with values that fit, set-field for
a field of the table with the value the parser would return, and experimenter actions other than
Nicira's with data that needs no padding. -/
def Regular (conv : Addrconv) : Action → Prop
  | setField key value => ∃ f ∈ oxmTypes, key = .named f.name ∧
      ∃ b, f.type.fromUser conv value = .ok b ∧ f.type.toUser conv b = .ok value
  | experimenterUnknown experimenter data => experimenter ≠ nxExperimenterId ∧
      experimenter < 256 ^ 4 ∧ ∃ d, data = some d ∧ 8 ∣ d.length ∧ d.length + 8 < 256 ^ 2
  | a => ∃ l, a.layout = some l ∧ fits l.packStr l.vals = true

theorem parser_eq (conv : Addrconv) (depth : Nat) :
    ∃ nested, parser conv depth = parserWith conv nested := by
  cases depth with
  | zero => exact ⟨_, rfl⟩
  | succ depth => exact ⟨_, rfl⟩

/-- The header of an action is read off its first four bytes. -/
theorem unpackFrom_header {type len : Nat} {buf r : Bytes} {off : Nat} (ht : type < 256 ^ 2)
    (hl : len < 256 ^ 2) (hr : 4 ≤ r.length)
    (hat : At buf off (encode [H, H] [.int type, .int len] ++ r)) :
    unpackFrom ofpActionHeaderPackStr buf off = .ok [.int type, .int len] := by
  refine unpackFrom_pad ?_ (by decide) hr hat
  simpa [Struct.exact] using ⟨ht, hl⟩

theorem encodes_fixed (conv : Addrconv) {a : Action} {l : FixedLayout} (h : a.layout = some l)
    (hfit : fits l.packStr l.vals = true) (depth : Nat) :
    Encodes (a.serialize conv) (parser conv depth) a (encode l.packStr l.vals) := by
  obtain ⟨⟨make, hclass, hmake⟩, tail, htail, hsize, hpos, hdvd⟩ := fixedClass_layout h
  have hser : a.serialize conv = l.write := by
    cases a <;> cases h <;> rfl
  rw [hser]
  refine FixedLayout.encodes hfit hpos hdvd ?_
  intro buf off hat hvals
  obtain ⟨nested, hnested⟩ := parser_eq conv depth
  obtain ⟨ht, hl, htailLen, hat⟩ := FixedLayout.header_at htail hfit hat
  rw [hnested]
  refine Py.Ends.bind (Py.ends_lift.2 (unpackFrom_header ht hl (by omega) hat)) ?_
  have hdrop : l.vals.drop 2 = l.args.map .int := rfl
  simp only [hclass, Py.ends_lift, fixedParser, hvals, hdrop, hmake, ok_bind]
  rfl

@[simp] theorem length_encode_experimenter {type len experimenter : Nat} :
    (encode ofpActionExperimenterHeaderPackStr
      [.int type, .int len, .int experimenter]).length = 8 := by
  simp [encode, ofpActionExperimenterHeaderPackStr]

/-- An experimenter action is read off its header: its data is what the announced length takes of
the buffer. -/
theorem parserWith_experimenter (conv : Addrconv) (nested : Bytes → Nat → Py (Action × Nat))
    {experimenter off len : Nat} {buf data : Bytes} (hexp : experimenter < 256 ^ 4)
    (hlen : len < 256 ^ 2) (hat : At buf off (encode ofpActionExperimenterHeaderPackStr
      [.int ofpatExperimenter, .int len, .int experimenter]))
    (hdata : slice buf (off + 8) (off + len) = data) : parserWith conv nested buf off =
      (if experimenter = nxExperimenterId then nxParse nested data
        else pure (experimenterUnknown experimenter (some data))) >>= fun obj =>
          pure (obj, len) := by
  have hex : Struct.exact ofpActionExperimenterHeaderPackStr
      [.int ofpatExperimenter, .int len, .int experimenter] = true := by
    simpa [ofpActionExperimenterHeaderPackStr, Struct.exact, ofpatExperimenter] using ⟨hlen, hexp⟩
  have htype : unpackFrom ofpActionHeaderPackStr buf off =
      .ok [.int ofpatExperimenter, .int len] := by
    refine unpackFrom_header (by decide) hlen (r := beEncode 4 experimenter) (by simp) ?_
    simpa [ofpActionExperimenterHeaderPackStr, encode] using hat
  rw [parserWith, htype]
  show experimenterParser nested buf off = _
  rw [experimenterParser, unpackFrom_at hex (by decide) hat, Py.lift_ok_bind, ← hdata]
  dsimp only
  split_ifs <;> rfl

section Experimenter

variable (conv : Addrconv) (depth : Nat) {experimenter : Nat} {d : Bytes}
  (hexp : experimenter < 256 ^ 4) (hlen : d.length + 8 < 256 ^ 2)
include hexp hlen

/-- What is done with the data of an experimenter action, wherever the action stands. -/
theorem parser_experimenter {off : Nat} {buf : Bytes}
    (hat : At buf off (encode ofpActionExperimenterHeaderPackStr
      [.int ofpatExperimenter, .int (d.length + 8), .int experimenter] ++ d)) :
    ∃ nested, parser conv depth buf off =
      (if experimenter = nxExperimenterId then nxParse nested d
        else pure (experimenterUnknown experimenter (some d))) >>=
        fun obj => pure (obj, d.length + 8) := by
  have hdata : slice buf (off + 8) (off + (d.length + 8)) = d := by
    have hright : At buf (off + 8) d := by simpa using hat.right
    rw [show off + (d.length + 8) = off + 8 + d.length by omega, hright.slice_eq]
  obtain ⟨nested, hnested⟩ := parser_eq conv depth
  exact ⟨nested, by rw [hnested, parserWith_experimenter conv nested hexp hlen hat.left hdata]⟩

/-- An experimenter action that fills its announced length and is parsed from its data. -/
theorem encodes_experimenter {a : Action}
    (hser : a.serialize conv [] 0 = .ok (encode ofpActionExperimenterHeaderPackStr
      [.int ofpatExperimenter, .int (d.length + 8), .int experimenter] ++ d, d.length + 8))
    (hparse : ∀ nested, (if experimenter = nxExperimenterId then nxParse nested d
      else pure (experimenterUnknown experimenter (some d))) = pure a) :
    Encodes (a.serialize conv) (parser conv depth) a (encode ofpActionExperimenterHeaderPackStr
      [.int ofpatExperimenter, .int (d.length + 8), .int experimenter] ++ d) := by
  have hsize : (encode ofpActionExperimenterHeaderPackStr
      [.int ofpatExperimenter, .int (d.length + 8), .int experimenter] ++ d).length =
        d.length + 8 := by
    rw [length_append, length_encode_experimenter, Nat.add_comm]
  obtain ⟨hwrites, hdvd⟩ := (serialize_rounded conv a).aligned hser hsize
  refine ⟨hwrites, by omega, hdvd, fun hat => ?_⟩
  obtain ⟨nested, hparser⟩ := parser_experimenter conv depth hexp hlen hat
  rw [hparser, hparse, hsize]
  exact Py.ends_pure.2 rfl

theorem encodes_experimenterUnknown (hne : experimenter ≠ nxExperimenterId) (hd : 8 ∣ d.length) :
    Encodes ((experimenterUnknown experimenter (some d)).serialize conv) (parser conv depth)
      (experimenterUnknown experimenter (some d)) (encode ofpActionExperimenterHeaderPackStr
        [.int ofpatExperimenter, .int (d.length + 8), .int experimenter] ++ d) := by
  refine encodes_experimenter conv depth hexp hlen ?_ fun _ => if_neg hne
  have hround : roundUp d.length 8 = d.length := roundUp_of_dvd (by decide) hd
  have hfit : fits ofpActionExperimenterHeaderPackStr
      [.int ofpatExperimenter, .int (d.length + 8), .int experimenter] = true := by
    simpa [fits, ofpActionExperimenterHeaderPackStr, ofpatExperimenter] using ⟨hlen, hexp⟩
  have hdata : fits [s d.length] [.bytes d] = true := rfl
  simp only [serialize, experimenterUnknownSerialize, Option.getD_some, hround, msgPackInto_ok hfit,
    msgPackInto_ok hdata, ok_bind]
  simp [encode, splice, take_of_length_le, drop_of_length_le]

end Experimenter

theorem encodes_setField {conv : Addrconv} {f : OxmField} (hf : f ∈ oxmTypes) {value : UserVal}
    {b : Bytes} (hfrom : f.type.fromUser conv value = .ok b)
    (hto : f.type.toUser conv b = .ok value) :
    ∃ bs, ∀ depth, Encodes ((setField (.named f.name) value).serialize conv) (parser conv depth)
      (setField (.named f.name) value) bs := by
  obtain ⟨size, he⟩ := entry_of_mem f hf
  have hb : b.length = size := TypeDesc.length_fromUser he.size_eq hfrom
  have hs : f.Sized b none := ⟨by rw [he.size_eq, hb], by simp⟩
  have hle := he.le
  set tlv := f.tlv b none with htlv
  have htlvLen : tlv.length ≤ 26 := by
    rw [htlv, length_tlv f hs]
    have := f.length_expHdr_le
    simp only [maskBit]
    omega
  set len := roundUp (4 + tlv.length) 8 with hlen
  have hlenLe := le_roundUp (4 + tlv.length) (show 0 < 8 by decide)
  have hlenLt := roundUp_lt (4 + tlv.length) (show 0 < 8 by decide)
  have hdvd := dvd_roundUp (4 + tlv.length) 8
  have hfit : fits [H, H] [.int ofpatSetField, .int len] = true := by
    simp [fits, ofpatSetField]
    omega
  set bs := encode [H, H] [.int ofpatSetField, .int len] ++ tlv ++ zeros (len - (4 + tlv.length))
    with hbs
  have hsize : bs.length = len := by
    rw [hbs, length_append, length_append, length_encode hfit, length_zeros]
    simp only [calcsize, Item.size]
    omega
  have hname : oxmFromUser conv (.named f.name) (value, none) = .ok (f.num, b, none) := by
    simp [he.oxmFromUser_eq, hfrom]
  have hwrites : Writes (setFieldSerialize conv (.named f.name) value) (.ok (bs, len)) := by
    have hw := setFieldSerialize_writes conv (.named f.name) value
    have hnil : splice [] 0 tlv = tlv := splice_end [] tlv
    simp only [hname, oxmSerialize_tlv he hs, ← htlv, hnil, ← hlen, pack_eq_ok hfit, ok_bind] at hw
    exact hw
  refine ⟨bs, fun depth => ⟨by rw [hsize]; exact hwrites, by omega, by rw [hsize]; exact hdvd, ?_⟩⟩
  intro buf off hat
  obtain ⟨nested, hnested⟩ := parser_eq conv depth
  have hhdr : unpackFrom ofpActionHeaderPackStr buf off = .ok [.int ofpatSetField, .int len] := by
    refine unpackFrom_header (by decide) (by omega)
      (r := tlv ++ zeros (len - (4 + tlv.length))) (by simp; omega) ?_
    rwa [← append_assoc]
  have htlvAt : At buf (off + 4) tlv := by
    have h := hat.left.right
    rwa [length_encode hfit] at h
  obtain ⟨field, hfield, -⟩ := matchFieldParser_tlv he hs htlvAt
  have huser : oxmToUser conv f.num b none = .ok (.named f.name, value, none) := by
    simp [he.oxmToUser_eq conv none hs.1, hto]
  have hparse : setFieldParser conv buf off = .ok (setField (.named f.name) value, len) := by
    have hhdr' : unpackFrom [H, H, x 4] buf off = .ok [.int ofpatSetField, .int len] := hhdr
    simp only [setFieldParser, hhdr', oxmParse_tlv he hs htlvAt, huser, hfield, ok_bind]
    rfl
  rw [hnested, hsize]
  refine Py.Ends.bind (Py.ends_lift.2 hhdr) ?_
  exact Py.ends_lift.2 hparse

/-- Every regular action has an encoding, at any recursion limit. -/
theorem Regular.encodes {conv : Addrconv} {a : Action} (h : a.Regular conv) :
    ∃ bs, ∀ depth, Encodes (a.serialize conv) (parser conv depth) a bs := by
  cases a with
  | setField key value =>
    obtain ⟨f, hf, rfl, b, hfrom, hto⟩ := h
    exact encodes_setField hf hfrom hto
  | experimenterUnknown experimenter data =>
    obtain ⟨hne, hexp, d, rfl, hd, hlen⟩ := h
    exact ⟨_, fun depth => encodes_experimenterUnknown conv depth hexp hlen hne hd⟩
  | _ =>
    obtain ⟨l, hl, hfit⟩ := h
    exact ⟨_, encodes_fixed conv hl hfit⟩

/-! ### Subtypes of Nicira that are not registered -/

def registered : List Nat :=
  [nxastRegMove, nxastLearn, nxastConjunction, nxastResubmitTable, nxastCt]

/-- The bytes of a Nicira action. -/
def nxBytes (subtype : Nat) (payload : Bytes) : Bytes :=
  encode ofpActionExperimenterHeaderPackStr [.int ofpatExperimenter,
    .int ((beEncode 2 subtype ++ payload).length + 8), .int nxExperimenterId] ++
    (beEncode 2 subtype ++ payload)

/-- The actions in `size` bytes are read, and written again as they stand there. -/
def ReadsBack (conv : Addrconv) (depth : Nat) (buf : Bytes) (off size : Nat) : Prop :=
  ∃ acts, Py.Ends (Py.span (parser conv depth buf) off size) (.ok acts) ∧
    writeAll (serialize conv) acts (buf.take off) off = .ok (buf.take (off + size), off + size)

/-- The actions from one offset to another are read, one after the other. -/
inductive Reaches (conv : Addrconv) (depth : Nat) (buf : Bytes) : Nat → Nat → Prop where
  | here {off : Nat} : Reaches conv depth buf off off
  | next {off len off' : Nat} {a : Action} (h : Py.Ends (parser conv depth buf off) (.ok (a, len)))
    (hrest : Reaches conv depth buf (off + len) off') : Reaches conv depth buf off off'

section Unregistered

variable {conv : Addrconv} {depth off off' size : Nat} {buf : Bytes}

theorem Reaches.le (h : Reaches conv depth buf off off') : off ≤ off' := by
  induction h with
  | here => exact Nat.le_refl _
  | next _ _ ih => omega

/-- The loop over a list raises what the parser raises for one of its actions. -/
theorem Reaches.raises (h : Reaches conv depth buf off off') (hin : off' < off + size) {e : PyErr}
    (he : Py.Ends (parser conv depth buf off') (.error e)) :
    Py.Ends (Py.span (parser conv depth buf) off size) (.error e) := by
  induction h generalizing size with
  | here => exact Py.ends_span_error (by omega) he
  | @next off len off' a hread hrest ih =>
    have hle := hrest.le
    exact Py.ends_span_later (by omega) hread (ih (by omega) he)

variable {subtype : Nat} {payload : Bytes}

theorem nxParse_append (nested : Bytes → Nat → Py (Action × Nat)) (h : subtype < 256 ^ 2)
    (rest : Bytes) :
    nxParse nested (beEncode 2 subtype ++ rest) =
      if subtype = nxastRegMove then liftM (regMoveParse rest)
      else if subtype = nxastLearn then learnParse rest
      else if subtype = nxastConjunction then liftM (conjunctionParse rest)
      else if subtype = nxastResubmitTable then liftM (resubmitTableParse rest)
      else if subtype = nxastCt then ctParse nested rest
      else Py.raise .attributeError := by
  have hread : unpackFrom [H] (beEncode 2 subtype ++ rest) 0 = .ok [.int subtype] := by
    refine unpackFrom_at (by simpa [Struct.exact] using h) (by decide) ?_
    simp [encode, At]
  rw [nxParse, hread, Py.lift_ok_bind]
  simp only [drop_left' (length_beEncode 2 subtype)]

theorem parser_unregistered (hsub : subtype < 256 ^ 2) (hnot : subtype ∉ registered)
    (hlen : payload.length + 10 < 256 ^ 2) (hat : At buf off (nxBytes subtype payload)) :
    Py.Ends (parser conv depth buf off) (.error .attributeError) := by
  obtain ⟨nested, hparser⟩ := parser_experimenter conv depth (by decide)
    (by simp only [length_append, length_beEncode]; omega) hat
  rw [hparser, if_pos rfl]
  simp only [registered, mem_cons, not_mem_nil, or_false, not_or] at hnot
  refine Py.Ends.bind_error ?_
  rw [nxParse_append nested hsub]
  simp [hnot, Py.raise]

/-- A list with a Nicira action of a subtype that is not registered is never read: after the actions
in front of it, the parser raises. -/
theorem not_readsBack_unregistered (hsub : subtype < 256 ^ 2) (hnot : subtype ∉ registered)
    (hlen : payload.length + 10 < 256 ^ 2) (hat : At buf off' (nxBytes subtype payload))
    (hreach : Reaches conv depth buf off off') (hin : off' < off + size) :
    Py.Ends (Py.span (parser conv depth buf) off size) (.error .attributeError) ∧
      ¬ReadsBack conv depth buf off size := by
  have hraises := hreach.raises hin (parser_unregistered hsub hnot hlen hat)
  refine ⟨hraises, ?_⟩
  rintro ⟨acts, hacts, -⟩
  cases hraises.unique hacts

end Unregistered

/-- Subtype 7 behind an action that decrements the TTL. -/
theorem not_readsBack_seven :
    ¬ReadsBack OFPMatch.latin1Addrconv 0 ([0, 24, 0, 8, 0, 0, 0, 0] ++ nxBytes 7 (zeros 6)) 0 24 :=
  have hattr : At ([0, 24, 0, 8, 0, 0, 0, 0] ++ nxBytes 7 (zeros 6)) 8 (nxBytes 7 (zeros 6)) := by
    decide
  have hnext : Py.Ends (parser OFPMatch.latin1Addrconv 0
      ([0, 24, 0, 8, 0, 0, 0, 0] ++ nxBytes 7 (zeros 6)) 0) (.ok (.decNwTtl, 8)) := ⟨1, rfl⟩
  (not_readsBack_unregistered (by decide) (by decide) (by decide) hattr (.next hnext .here)
    (by decide)).2

/-- Subtype 7 alone. -/
theorem not_readsBack_sevenAlone :
    ¬ReadsBack OFPMatch.latin1Addrconv 0 (nxBytes 7 (zeros 6)) 0 16 := by
  rintro ⟨acts, hacts, -⟩
  cases hacts.unique ⟨2, rfl⟩

end Action

end BebaCtrl
