import BebaCtrl.Ofproto.OfprotoParser

/-!
# Extensible match fields

An OXM field goes over the wire as a header word (class, field, mask flag, payload length), an
experimenter header for the 64-bit classes, the value and perhaps a mask. Users see a field as a
name and a value in text or numbers. This file has the field table of OpenFlow 1.3, the conversion
between the two views and the codec, up to the round trip `oxmParse_tlv`.

The text forms of addresses are those of an external library, a parameter here. Fields that are
not in the table are known by their number, and their values by the base64 text of the bytes.
-/

namespace BebaCtrl

open Struct Option

/-! ## Values -/

/-- What users give and see: a number, a text, or a text that is the base64 form of bytes. -/
inductive UserVal where
  | int (i : Nat)
  | text (s : String)
  | base64 (b : Bytes)
  deriving DecidableEq, Repr, Inhabited

/-- Conversion between addresses of `size` bytes and their text. -/
structure AddressConverter (size : Nat) where
  textToBin : UserVal → PyResult Bytes
  binToText : Bytes → String
  length_textToBin : ∀ u b, textToBin u = .ok b → b.length = size
  textToBin_binToText : ∀ b, b.length = size → textToBin (.text (binToText b)) = .ok b

structure Addrconv where
  mac : AddressConverter 6
  ipv4 : AddressConverter 4
  ipv6 : AddressConverter 16

inductive TypeDesc where
  | int (size : Nat)
  | macAddr
  | ipv4Addr
  | ipv6Addr
  | unknownType
  deriving DecidableEq, Repr

variable {n : Nat}

namespace TypeDesc

def size : TypeDesc → Option Nat
  | .int n => some n
  | .macAddr => some 6
  | .ipv4Addr => some 4
  | .ipv6Addr => some 16
  | .unknownType => none

def toUser (conv : Addrconv) : TypeDesc → Bytes → PyResult UserVal
  | .int n, b => if b.length < n then .error .typeError else .ok (.int (beDecode (b.take n)))
  | .macAddr, b => .ok (.text (conv.mac.binToText b))
  | .ipv4Addr, b => .ok (.text (conv.ipv4.binToText b))
  | .ipv6Addr, b => .ok (.text (conv.ipv6.binToText b))
  | .unknownType, b => .ok (.base64 b)

/-- Numbers are cut to the width of the field. -/
def fromUser (conv : Addrconv) : TypeDesc → UserVal → PyResult Bytes
  | .int n, .int i => .ok (beEncode n i)
  | .int _, _ => .error .typeError
  | .macAddr, u => conv.mac.textToBin u
  | .ipv4Addr, u => conv.ipv4.textToBin u
  | .ipv6Addr, u => conv.ipv6.textToBin u
  | .unknownType, .base64 b => .ok b
  | .unknownType, _ => .error .typeError

variable {conv : Addrconv} {b : Bytes}

theorem length_fromUser {t : TypeDesc} {u : UserVal} (hn : t.size = some n)
    (h : t.fromUser conv u = .ok b) : b.length = n := by
  cases t with
  | int k =>
    cases hn
    cases u <;> cases h
    exact length_beEncode n _
  | macAddr => cases hn; exact conv.mac.length_textToBin u b h
  | ipv4Addr => cases hn; exact conv.ipv4.length_textToBin u b h
  | ipv6Addr => cases hn; exact conv.ipv6.length_textToBin u b h
  | unknownType => cases hn

/-- Bytes of the right length have a user form, and that form gives the bytes back. -/
theorem toUser_fromUser (t : TypeDesc) (conv : Addrconv) (hn : t.size = some n)
    (hb : b.length = n) : ∃ u, t.toUser conv b = .ok u ∧ t.fromUser conv u = .ok b := by
  cases t with
  | int k =>
    cases hn
    refine ⟨.int (beDecode (b.take n)), if_neg (by omega), ?_⟩
    rw [fromUser, List.take_of_length_le (by omega), ← hb, beEncode_beDecode]
  | macAddr => cases hn; exact ⟨_, rfl, conv.mac.textToBin_binToText b hb⟩
  | ipv4Addr => cases hn; exact ⟨_, rfl, conv.ipv4.textToBin_binToText b hb⟩
  | ipv6Addr => cases hn; exact ⟨_, rfl, conv.ipv6.textToBin_binToText b hb⟩
  | unknownType => cases hn

end TypeDesc

/-! ## The field table -/

/-- The number of a field: class and field of a 32-bit OXM, or experimenter and type. -/
inductive OxmNum where
  | basic (n : Nat)
  | experimenter (expId expType : Nat)
  deriving DecidableEq, Repr, Inhabited

/-- A keyword: a name of the table, or `'field_%d'` for a field that has none. -/
inductive OxmName where
  | named (s : String)
  | field (n : Nat)
  deriving DecidableEq, Repr, Inhabited

structure OxmField where
  name : String
  cls : Nat
  oxmType : Nat
  num : OxmNum
  type : TypeDesc
  /-- `experimenter_id` and `exp_type` of the experimenter classes -/
  exp : Option (Nat × Nat)
  deriving DecidableEq, Repr

def ofpxmcExperimenter : Nat := 0xffff

namespace OxmField

def oxmClass (cls : Nat) (name : String) (num : Nat) (type : TypeDesc) : OxmField where
  name := name
  cls := cls
  oxmType := num ||| (cls <<< 7)
  num := .basic (num ||| (cls <<< 7))
  type := type
  exp := none

def openFlowBasic := oxmClass 0x8000
def niciraExtended0 := oxmClass 0
def niciraExtended1 := oxmClass 1

def experimenter (expId : Nat) (name : String) (num : Nat) (type : TypeDesc) : OxmField where
  name := name
  cls := ofpxmcExperimenter
  oxmType := num ||| (ofpxmcExperimenter <<< 7)
  num := .experimenter expId (num ||| (ofpxmcExperimenter <<< 7))
  type := type
  exp := some (expId, num)

def onfExperimenter := experimenter onfExperimenterId
def bebaExperimenter := experimenter bebaExperimenterId
def niciraExperimenter := experimenter nxExperimenterId

/-- The old form of EXT-256: the field number is zero and the type follows the experimenter id. -/
def oldONFExperimenter (name : String) (num : Nat) (type : TypeDesc) : OxmField where
  name := name
  cls := ofpxmcExperimenter
  oxmType := 0 ||| (ofpxmcExperimenter <<< 7)
  num := .experimenter onfExperimenterId num
  type := type
  exp := some (onfExperimenterId, 2560)

end OxmField

open OxmField in
def oxmTypes : List OxmField :=
  [openFlowBasic "in_port" 0 (.int 4), openFlowBasic "in_phy_port" 1 (.int 4),
    openFlowBasic "metadata" 2 (.int 8), openFlowBasic "eth_dst" 3 .macAddr,
    openFlowBasic "eth_src" 4 .macAddr, openFlowBasic "eth_type" 5 (.int 2),
    openFlowBasic "vlan_vid" 6 (.int 2), openFlowBasic "vlan_pcp" 7 (.int 1),
    openFlowBasic "ip_dscp" 8 (.int 1), openFlowBasic "ip_ecn" 9 (.int 1),
    openFlowBasic "ip_proto" 10 (.int 1), openFlowBasic "ipv4_src" 11 .ipv4Addr,
    openFlowBasic "ipv4_dst" 12 .ipv4Addr, openFlowBasic "tcp_src" 13 (.int 2),
    openFlowBasic "tcp_dst" 14 (.int 2), openFlowBasic "udp_src" 15 (.int 2),
    openFlowBasic "udp_dst" 16 (.int 2), openFlowBasic "sctp_src" 17 (.int 2),
    openFlowBasic "sctp_dst" 18 (.int 2), openFlowBasic "icmpv4_type" 19 (.int 1),
    openFlowBasic "icmpv4_code" 20 (.int 1), openFlowBasic "arp_op" 21 (.int 2),
    openFlowBasic "arp_spa" 22 .ipv4Addr, openFlowBasic "arp_tpa" 23 .ipv4Addr,
    openFlowBasic "arp_sha" 24 .macAddr, openFlowBasic "arp_tha" 25 .macAddr,
    openFlowBasic "ipv6_src" 26 .ipv6Addr, openFlowBasic "ipv6_dst" 27 .ipv6Addr,
    openFlowBasic "ipv6_flabel" 28 (.int 4), openFlowBasic "icmpv6_type" 29 (.int 1),
    openFlowBasic "icmpv6_code" 30 (.int 1), openFlowBasic "ipv6_nd_target" 31 .ipv6Addr,
    openFlowBasic "ipv6_nd_sll" 32 .macAddr, openFlowBasic "ipv6_nd_tll" 33 .macAddr,
    openFlowBasic "mpls_label" 34 (.int 4), openFlowBasic "mpls_tc" 35 (.int 1),
    openFlowBasic "mpls_bos" 36 (.int 1), openFlowBasic "pbb_isid" 37 (.int 3),
    openFlowBasic "tunnel_id" 38 (.int 8), openFlowBasic "ipv6_exthdr" 39 (.int 2),
    oldONFExperimenter "pbb_uca" 2560 (.int 1), openFlowBasic "tcp_flags" 40 (.int 2),
    onfExperimenter "actset_output" 43 (.int 4),
    -- the Nicira fields
    niciraExtended0 "eth_dst_nxm" 1 .macAddr, niciraExtended0 "eth_src_nxm" 2 .macAddr,
    niciraExtended1 "tunnel_id_nxm" 16 (.int 8), niciraExtended1 "tun_ipv4_src" 31 .ipv4Addr,
    niciraExtended1 "tun_ipv4_dst" 32 .ipv4Addr, niciraExtended1 "pkt_mark" 33 (.int 4),
    niciraExtended1 "conj_id" 37 (.int 4), niciraExtended1 "ct_state" 105 (.int 4),
    niciraExtended1 "ct_zone" 106 (.int 2), niciraExtended1 "ct_mark" 107 (.int 4),
    niciraExtended1 "ct_label" 108 (.int 16), niciraExperimenter "_dp_hash" 0 (.int 4),
    niciraExtended1 "reg0" 0 (.int 4), niciraExtended1 "reg1" 1 (.int 4),
    niciraExtended1 "reg2" 2 (.int 4), niciraExtended1 "reg3" 3 (.int 4),
    niciraExtended1 "reg4" 4 (.int 4), niciraExtended1 "reg5" 5 (.int 4),
    niciraExtended1 "reg6" 6 (.int 4), niciraExtended1 "reg7" 7 (.int 4),
    -- the Beba fields
    bebaExperimenter "global_state" 0 (.int 4), bebaExperimenter "state" 1 (.int 4)]

/-- `name_to_field`; names are distinct, so the first entry is the only one. -/
def nameToField (name : String) : Option OxmField := oxmTypes.find? (·.name = name)

/-- `num_to_field`; numbers are distinct too. -/
def numToField (num : OxmNum) : Option OxmField := oxmTypes.find? (·.num = num)

/-! ## User values -/

/-- The value of a field as users give it, with its mask if there is one. -/
abbrev UserValue := UserVal × Option UserVal

def getFieldInfoByName : OxmName → PyResult (OxmNum × TypeDesc)
  | .named s =>
    match nameToField s with
    | some f => .ok (f.num, f.type)
    | none => .error .keyError
  | .field n => .ok (.basic n, .unknownType)

def getFieldInfoByNumber (num : OxmNum) : PyResult (OxmName × TypeDesc) :=
  match numToField num with
  | some f => .ok (.named f.name, f.type)
  | none =>
    match num with
    | .basic n => .ok (.field n, .unknownType)
    | .experimenter _ _ => .error .keyError

def oxmFromUserHeader (name : OxmName) : PyResult OxmNum := do
  let (num, _) ← getFieldInfoByName name
  return num

def oxmToUserHeader (num : OxmNum) : PyResult OxmName := do
  let (name, _) ← getFieldInfoByNumber num
  return name

section User

variable (conv : Addrconv)

def oxmFromUser (name : OxmName) (uv : UserValue) : PyResult (OxmNum × Bytes × Option Bytes) := do
  let (num, t) ← getFieldInfoByName name
  let value ← t.fromUser conv uv.1
  match uv.2 with
  | none => return (num, value, none)
  | some m => return (num, value, some (← t.fromUser conv m))

def oxmToUser (num : OxmNum) (value : Bytes) (mask : Option Bytes) :
    PyResult (OxmName × UserValue) := do
  let (name, t) ← getFieldInfoByNumber num
  -- 'Unexpected OXM payload length %d for %s (expected %d)'
  if t.size.isSome ∧ t.size ≠ some value.length then throw (.other "Exception")
  let v ← t.toUser conv value
  match mask with
  | none => return (name, v, none)
  | some m => return (name, v, some (← t.toUser conv m))

/-- The bits of the value under the mask. -/
def applyMask (value : Bytes) : Option Bytes → Bytes
  | none => value
  | some m => List.zipWith (· &&& ·) value m

/-- Apply the mask to the value; a pair that does not convert is left alone. -/
def oxmNormalizeUser (name : OxmName) (uv : UserValue) : PyResult (OxmName × UserValue) :=
  match oxmFromUser conv name uv with
  | .error _ => .ok (name, uv)
  | .ok (num, value, mask) =>
    match oxmToUser conv num (applyMask value mask) mask with
    | .error _ => .ok (name, uv)
    | .ok (name', uv') => do
      pyAssert (name' = name)
      return (name', uv')

end User

/-! ## The codec -/

structure OxmHeader where
  num : OxmNum
  totalHdrLen : Nat
  hasmask : Bool
  valueLen : Nat
  fieldLen : Nat
  deriving DecidableEq, Repr

/-- The number and the length of the experimenter header of a field with type `oxxType`. -/
def parseNum (oxxType : Nat) (buf : Bytes) (offset : Nat) : PyResult (OxmNum × Nat) := do
  if oxxType >>> 7 = ofpxmcExperimenter then
    let [.int expId] ← unpackFrom [I] buf (offset + 4) | throw .valueError
    if expId = onfExperimenterId ∧ oxxType &&& 0x7f = 0 then
      -- the old form of EXT-256
      let [.int expType] ← unpackFrom [H] buf (offset + 4 + 4) | throw .valueError
      return (.experimenter expId expType, 6)
    else return (.experimenter expId oxxType, 4)
  else return (.basic oxxType, 0)

/-- Lengths are naturals here: a negative value length fails the assertion like zero. -/
def parseHeaderImpl (buf : Bytes) (offset : Nat) : PyResult OxmHeader := do
  let [.int header] ← unpackFrom [I] buf offset | throw .valueError
  let oxxLength := header &&& 0xff
  let (num, expHdrLen) ← parseNum (header >>> 9) buf offset
  let hasmask := (header >>> 8) &&& 1 = 1
  let valueLen := if hasmask then (oxxLength - expHdrLen) / 2 else oxxLength - expHdrLen
  pyAssert (0 < valueLen)
  return ⟨num, 4 + expHdrLen, hasmask, valueLen, 4 + oxxLength⟩

def oxmParseHeader (buf : Bytes) (offset : Nat) : PyResult (OxmNum × Nat) := do
  let h ← parseHeaderImpl buf offset
  return (h.num, h.fieldLen - h.valueLen)

/-- Number, value, mask and length of the field at an offset. -/
def oxmParse (buf : Bytes) (offset : Nat) : PyResult (OxmNum × Bytes × Option Bytes × Nat) := do
  let h ← parseHeaderImpl buf offset
  let [.bytes value] ← unpackFrom [s h.valueLen] buf (offset + h.totalHdrLen) | throw .valueError
  if h.hasmask then
    let [.bytes mask] ← unpackFrom [s h.valueLen] buf (offset + h.totalHdrLen + h.valueLen)
      | throw .valueError
    return (h.num, value, some mask, h.fieldLen)
  else return (h.num, value, none, h.fieldLen)

/-- The header number of a field and its experimenter header. -/
def makeExpHdr (num : OxmNum) : PyResult (OxmNum × Bytes) :=
  match numToField num with
  | none => .ok (num, [])
  | some desc =>
    match desc.exp, num with
    | some (descId, descType), .experimenter expId expType => do
      pyAssert (descId = expId)
      let hdr ←
        if descType = 2560 then msgPackInto [I, H] [] 0 [.int descId, .int descType]
        else do
          pyAssert (desc.oxmType = expType ||| (ofpxmcExperimenter <<< 7))
          msgPackInto [I] [] 0 [.int descId]
      pyAssert (desc.oxmType >>> 7 = ofpxmcExperimenter)
      return (.basic desc.oxmType, hdr)
    | some _, .basic _ => .error .typeError
    | none, _ => .ok (num, [])

/-- The header word; a number that is still a pair cannot be shifted. -/
def headerWord (num : OxmNum) (hasmask length : Nat) : PyResult Nat :=
  match num with
  | .basic n => .ok ((n <<< 9) ||| (hasmask <<< 8) ||| length)
  | .experimenter _ _ => .error .typeError

/-- Write a field; the result is the buffer and the number of bytes of the field. -/
def oxmSerialize (num : OxmNum) (value : Bytes) (mask : Option Bytes) (buf : Bytes) (offset : Nat) :
    PyResult (Bytes × Nat) := do
  let (n, expHdr) ← makeExpHdr num
  let mask := mask.getD []
  if mask ≠ [] then
    pyAssert (value.length = mask.length)
    let word ← headerWord n 1 (expHdr.length + value.length * 2)
    let fmt := [I, s expHdr.length, s value.length, s mask.length]
    let buf ← msgPackInto fmt buf offset [.int word, .bytes expHdr, .bytes value, .bytes mask]
    return (buf, calcsize fmt)
  else
    let word ← headerWord n 0 (expHdr.length + value.length)
    let fmt := [I, s expHdr.length, s value.length]
    let buf ← msgPackInto fmt buf offset [.int word, .bytes expHdr, .bytes value]
    return (buf, calcsize fmt)

/-- Write a header without value, as the Nicira actions do. -/
def oxmSerializeHeader (num : OxmNum) (buf : Bytes) (offset : Nat) : PyResult (Bytes × Nat) := do
  let valueLen := ((numToField num).bind (·.type.size)).getD 0
  let (n, expHdr) ← makeExpHdr num
  let word ← headerWord n 0 (expHdr.length + valueLen)
  let fmt := [I, s expHdr.length]
  let buf ← msgPackInto fmt buf offset [.int word, .bytes expHdr]
  return (buf, calcsize fmt)

/-- The field that is written does not depend on where it is written, and its length is returned. -/
theorem oxmSerialize_writes (num : OxmNum) (value : Bytes) (mask : Option Bytes) :
    ∃ r, Writes (oxmSerialize num value mask) r ∧
      ∀ bs len, r = .ok (bs, len) → bs.length = len := by
  have hword : ∀ (n : OxmNum) (bit l : Nat) (fmt : Fmt) (vs : Nat → List Val),
      ∃ r, Writes (fun buf off => headerWord n bit l >>= fun w => do
        return (← msgPackInto fmt buf off (vs w), calcsize fmt)) r ∧
          ∀ bs len, r = .ok (bs, len) → bs.length = len := by
    intro n bit l fmt vs
    refine ⟨_, writes_bind _ fun w _ => writes_pack fmt (vs w) _, ?_⟩
    intro bs len h
    obtain ⟨w, -, h⟩ := bind_eq_ok.1 h
    obtain ⟨b, hb, h⟩ := bind_eq_ok.1 h
    cases h
    exact length_of_pack hb
  unfold oxmSerialize
  cases makeExpHdr num with
  | error e =>
    refine ⟨_, writes_error e, fun _ _ h => ?_⟩
    cases h
  | ok p =>
    obtain ⟨n, expHdr⟩ := p
    simp only [ok_bind]
    split
    · rcases Decidable.em (value.length = (mask.getD []).length) with h | h
      · simp only [pyAssert_pos h]
        exact hword n 1 _ _ fun w => [.int w, .bytes expHdr, .bytes value, .bytes (mask.getD [])]
      · simp only [pyAssert_neg h]
        refine ⟨_, writes_error _, fun _ _ h => ?_⟩
        cases h
    · exact hword n 0 _ _ fun w => [.int w, .bytes expHdr, .bytes value]

/-! ## Fields of the table -/

namespace OxmField

/-- The experimenter header of a field. -/
def expHdr (f : OxmField) : Bytes :=
  match f.exp with
  | none => []
  | some (expId, expType) =>
    if expType = 2560 then encode [I, H] [.int expId, .int expType] else encode [I] [.int expId]

theorem length_expHdr_le (f : OxmField) : f.expHdr.length ≤ 6 := by
  unfold expHdr
  split
  · simp
  · split <;> simp [encode]

/-- The header word of a field of the table, with (`1`) or without (`0`) a mask. -/
def word (f : OxmField) (hasmask size : Nat) : Nat :=
  (f.oxmType <<< 9) ||| (hasmask <<< 8) ||| (f.expHdr.length + size * (1 + hasmask))

/-- The bits of a header word come back. -/
def wordOk (f : OxmField) (hasmask size : Nat) : Bool :=
  f.word hasmask size < 256 ^ 4 && f.word hasmask size >>> 9 == f.oxmType &&
    (f.word hasmask size >>> 8) &&& 1 == hasmask &&
    f.word hasmask size &&& 0xff == f.expHdr.length + size * (1 + hasmask)

/-- The three layouts: 32-bit, 64-bit, and the old form of EXT-256. -/
def layoutOk (f : OxmField) : Bool :=
  match f.num with
  | .basic n => n == f.oxmType && f.oxmType >>> 7 != ofpxmcExperimenter && f.expHdr == []
  | .experimenter i t =>
    f.oxmType >>> 7 == ofpxmcExperimenter &&
      if t = 2560 then
        i == onfExperimenterId && f.oxmType &&& 0x7f == 0 &&
          f.expHdr == encode [I, H] [.int onfExperimenterId, .int 2560]
      else
        t == f.oxmType && decide (i < 256 ^ 4) &&
          !(i == onfExperimenterId && f.oxmType &&& 0x7f == 0) && f.expHdr == encode [I] [.int i]

/-- What the codec needs of an entry of the table. -/
structure Entry (f : OxmField) (size : Nat) : Prop where
  byName : nameToField f.name = some f
  byNum : numToField f.num = some f
  size_eq : f.type.size = some size
  pos : 0 < size
  le : size ≤ 16
  wordOk : ∀ hasmask ≤ 1, f.wordOk hasmask size = true
  makeExpHdr_eq : makeExpHdr f.num = .ok (.basic f.oxmType, f.expHdr)
  layout : f.layoutOk = true

end OxmField

/-- Every entry of the table is found under its name and its number and has a header that the
parser reads back. -/
theorem entry_of_mem : ∀ f ∈ oxmTypes, ∃ size, f.Entry size := by
  have h : ∀ f ∈ oxmTypes, ∃ size ≤ 16, nameToField f.name = some f ∧ numToField f.num = some f ∧
      f.type.size = some size ∧ 0 < size ∧ (∀ hasmask ≤ 1, f.wordOk hasmask size = true) ∧
      makeExpHdr f.num = .ok (.basic f.oxmType, f.expHdr) ∧ f.layoutOk = true := by
    decide +kernel
  intro f hf
  obtain ⟨size, hle, h1, h2, h3, h4, h5, h6, h7⟩ := h f hf
  exact ⟨size, h1, h2, h3, h4, hle, h5, h6, h7⟩

variable {buf : Bytes} {offset : Nat}

namespace OxmField.Entry

variable {f : OxmField} {size : Nat}

theorem parseNum_eq (h : f.Entry size) (hat : At buf (offset + 4) f.expHdr) :
    parseNum f.oxmType buf offset = .ok (f.num, f.expHdr.length) := by
  have hl := h.layout
  unfold layoutOk at hl
  rw [parseNum]
  split at hl
  · rename_i n hn
    simp only [Bool.and_eq_true, beq_iff_eq, bne_iff_ne] at hl
    obtain ⟨⟨rfl, hcls⟩, hhdr⟩ := hl
    rw [if_neg hcls, hhdr, hn]
    rfl
  · rename_i i t hn
    rw [Bool.and_eq_true, beq_iff_eq] at hl
    rw [if_pos hl.1]
    split at hl
    · rename_i ht
      simp only [Bool.and_eq_true, beq_iff_eq] at hl
      obtain ⟨-, ⟨rfl, hzero⟩, hhdr⟩ := hl
      rw [hhdr] at hat
      have hid : At buf (offset + 4) (encode [I] [.int onfExperimenterId]) := hat.left
      have htype : At buf (offset + 4 + 4) (encode [H] [.int 2560]) := hat.right
      rw [unpackFrom_at (by decide) (by decide) hid]
      simp only [hzero, and_self, if_true, ok_bind]
      rw [unpackFrom_at (by decide) (by decide) htype, hhdr, hn, ht]
      rfl
    · simp only [Bool.and_eq_true, beq_iff_eq, Bool.not_eq_true', decide_eq_true_eq,
        Bool.and_eq_false_iff, beq_eq_false_iff_ne] at hl
      obtain ⟨-, ⟨⟨rfl, hlt⟩, hne⟩, hhdr⟩ := hl
      rw [hhdr] at hat
      have hex : exact [I] [.int i] = true := by
        simpa [Struct.exact] using hlt
      have hcond : ¬(i = onfExperimenterId ∧ f.oxmType &&& 0x7f = 0) := not_and_or.2 hne
      rw [unpackFrom_at hex (by decide) hat]
      simp only [if_neg hcond, ok_bind]
      rw [hhdr, hn]
      rfl

/-- A field with a plain number has no experimenter header. -/
theorem expHdr_eq_nil (h : f.Entry size) (hn : f.num = .basic n) : f.expHdr = [] := by
  have hl := h.layout
  simp only [layoutOk, hn, Bool.and_eq_true, beq_iff_eq] at hl
  exact hl.2

/-- The bits of a header word. -/
theorem word_bits (h : f.Entry size) {hasmask : Nat} (hm : hasmask ≤ 1) :
    f.word hasmask size < 256 ^ 4 ∧ f.word hasmask size >>> 9 = f.oxmType ∧
      (f.word hasmask size >>> 8) &&& 1 = hasmask ∧
      f.word hasmask size &&& 0xff = f.expHdr.length + size * (1 + hasmask) := by
  have hw := h.wordOk hasmask hm
  simp only [OxmField.wordOk, Bool.and_eq_true, decide_eq_true_eq, beq_iff_eq] at hw
  exact ⟨hw.1.1.1, hw.1.1.2, hw.1.2, hw.2⟩

end OxmField.Entry

/-! ## Headers -/

/-- The header of a field of the table, with (`1`) or without (`0`) a mask. -/
def OxmField.header (f : OxmField) (hasmask size : Nat) : Bytes :=
  beEncode 4 (f.word hasmask size) ++ f.expHdr

theorem OxmField.length_header (f : OxmField) (hasmask size : Nat) :
    (f.header hasmask size).length = 4 + f.expHdr.length := by
  simp [OxmField.header]

variable {f : OxmField} {size : Nat}

/-- The parser reads a header of the table back. -/
theorem parseHeaderImpl_header (hf : f.Entry size) {hasmask : Nat}
    (hm : hasmask ≤ 1) (hat : At buf offset (f.header hasmask size)) :
    parseHeaderImpl buf offset = .ok ⟨f.num, 4 + f.expHdr.length, hasmask = 1, size,
      4 + (f.expHdr.length + size * (1 + hasmask))⟩ := by
  have hpos := hf.pos
  obtain ⟨hlt, htype, hbit, hlen⟩ := hf.word_bits hm
  have hword : At buf offset (encode [I] [.int (f.word hasmask size)]) := hat.left
  have hexp : At buf (offset + 4) f.expHdr := by
    simpa using hat.right
  have hex : exact [I] [.int (f.word hasmask size)] = true := by
    simpa [Struct.exact] using hlt
  rw [parseHeaderImpl, unpackFrom_at hex (by decide) hword]
  simp only [htype, hf.parseNum_eq hexp, hbit, hlen, ok_bind]
  rcases (show hasmask = 0 ∨ hasmask = 1 by omega) with rfl | rfl
  · simp [pyAssert, hpos]
  · simp [pyAssert, hpos]

theorem oxmParseHeader_header (hf : f.Entry size) (hat : At buf offset (f.header 0 size)) :
    oxmParseHeader buf offset = .ok (f.num, 4 + f.expHdr.length) := by
  rw [oxmParseHeader, parseHeaderImpl_header hf (Nat.zero_le 1) hat]
  simp only [ok_bind, pure_eq_ok]
  congr 2
  omega

theorem oxmSerializeHeader_header (hf : f.Entry size) (buf : Bytes) (offset : Nat) :
    oxmSerializeHeader f.num buf offset =
      .ok (splice buf offset (f.header 0 size), 4 + f.expHdr.length) := by
  have hfit : fits [I, s f.expHdr.length] [.int (f.word 0 size), .bytes f.expHdr] = true := by
    simpa [fits] using (hf.word_bits (Nat.zero_le 1)).1
  have hword : headerWord (.basic f.oxmType) 0 (f.expHdr.length + size) = .ok (f.word 0 size) := by
    simp [headerWord, OxmField.word]
  have hsize : ((numToField f.num).bind (·.type.size)).getD 0 = size := by
    simp [hf.byNum, hf.size_eq]
  rw [oxmSerializeHeader, hsize, hf.makeExpHdr_eq]
  simp only [hword, ok_bind]
  rw [msgPackInto_ok hfit]
  simp [encode, OxmField.header, calcsize]

/-- A number that is not in the table is written with no length. -/
theorem oxmSerializeHeader_unknown (hn : numToField (.basic n) = none) {buf out : Bytes}
    {offset len : Nat} (h : oxmSerializeHeader (.basic n) buf offset = .ok (out, len)) :
    n <<< 9 < 256 ^ 4 ∧ out = splice buf offset (beEncode 4 (n <<< 9)) := by
  have hword : headerWord (.basic n) 0 0 = .ok (n <<< 9) := by simp [headerWord]
  rw [oxmSerializeHeader, makeExpHdr, hn] at h
  simp only [bind_none, getD_none, List.length_nil, Nat.add_zero, hword, ok_bind] at h
  obtain ⟨buf', hpack, h⟩ := bind_eq_ok.1 h
  cases h
  obtain ⟨hfit, rfl⟩ := msgPackInto_eq_ok_iff.1 hpack
  exact ⟨by simpa [fits] using hfit, by simp [encode]⟩

/-- The parser refuses a header of no length. -/
theorem parseHeaderImpl_unknown (hn : n <<< 9 < 256 ^ 4)
    (hat : At buf offset (beEncode 4 (n <<< 9))) : ∃ e, parseHeaderImpl buf offset = .error e := by
  have hex : exact [I] [.int (n <<< 9)] = true := by
    simpa [Struct.exact] using hn
  have hword : At buf offset (encode [I] [.int (n <<< 9)]) := by
    simpa [encode] using hat
  have hlen : n <<< 9 &&& 0xff = 0 := by
    rw [show (0xff : Nat) = 2 ^ 8 - 1 from rfl, Nat.and_two_pow_sub_one_eq_mod, Nat.shiftLeft_eq]
    omega
  rw [parseHeaderImpl, unpackFrom_at hex (by decide) hword]
  simp only [hlen, ok_bind]
  cases parseNum (n <<< 9 >>> 9) buf offset with
  | error e => exact ⟨e, rfl⟩
  | ok p => exact ⟨.assertionError, by simp [pyAssert]⟩

/-! ## The bytes of a field -/

/-- The flag for a mask. -/
def maskBit : Option Bytes → Nat
  | none => 0
  | some _ => 1

theorem maskBit_le (mask : Option Bytes) : maskBit mask ≤ 1 := by
  cases mask <;> simp [maskBit]

/-- A field of the table on the wire. -/
def OxmField.tlv (f : OxmField) (value : Bytes) (mask : Option Bytes) : Bytes :=
  beEncode 4 (f.word (maskBit mask) value.length) ++ (f.expHdr ++ (value ++ mask.getD []))

/-- Value and mask have the width of the field. -/
def OxmField.Sized (f : OxmField) (value : Bytes) (mask : Option Bytes) : Prop :=
  f.type.size = some value.length ∧ ∀ m, mask = some m → m.length = value.length

variable {value : Bytes} {mask : Option Bytes}

theorem length_tlv (f : OxmField) (hs : f.Sized value mask) :
    (f.tlv value mask).length =
      4 + (f.expHdr.length + value.length * (1 + maskBit mask)) := by
  cases mask with
  | none => simp [OxmField.tlv, maskBit]
  | some m =>
    have hm := hs.2 m rfl
    simp [OxmField.tlv, maskBit, hm]
    omega

section

variable (hf : f.Entry size) (hs : f.Sized value mask)
include hf hs

theorem oxmSerialize_tlv (buf : Bytes) (offset : Nat) : oxmSerialize f.num value mask buf offset =
      .ok (splice buf offset (f.tlv value mask), (f.tlv value mask).length) := by
  have hsize : size = value.length := some.inj (hf.size_eq.symm.trans hs.1)
  subst hsize
  cases mask with
  | none =>
    have hfit : fits [I, s f.expHdr.length, s value.length]
        [.int (f.word 0 value.length), .bytes f.expHdr, .bytes value] = true := by
      simpa [fits] using (hf.word_bits (Nat.zero_le 1)).1
    have hword : headerWord (.basic f.oxmType) 0 (f.expHdr.length + value.length) =
        .ok (f.word 0 value.length) := by simp [headerWord, OxmField.word]
    rw [oxmSerialize, hf.makeExpHdr_eq]
    simp only [getD_none, ne_eq, not_true_eq_false, if_false, hword, ok_bind]
    rw [msgPackInto_ok hfit, length_tlv f hs]
    simp [encode, OxmField.tlv, maskBit, calcsize]
  | some m =>
    have hm : m.length = value.length := hs.2 m rfl
    have hne : m ≠ [] := by
      rintro rfl
      have := hf.pos
      simp at hm
      omega
    have hfit : fits [I, s f.expHdr.length, s value.length, s m.length]
        [.int (f.word 1 value.length), .bytes f.expHdr, .bytes value, .bytes m] = true := by
      simpa [fits] using (hf.word_bits le_rfl).1
    have hword : headerWord (.basic f.oxmType) 1 (f.expHdr.length + value.length * 2) =
        .ok (f.word 1 value.length) := by simp [headerWord, OxmField.word]
    rw [oxmSerialize, hf.makeExpHdr_eq]
    simp only [getD_some, ne_eq, hne, not_false_eq_true, if_true, hword, pyAssert_pos
      hm.symm, ok_bind]
    rw [msgPackInto_ok hfit, length_tlv f hs]
    simp [encode, OxmField.tlv, maskBit, calcsize]
    omega

theorem parseHeaderImpl_tlv (hat : At buf offset (f.tlv value mask)) :
    parseHeaderImpl buf offset = .ok ⟨f.num, 4 + f.expHdr.length, mask.isSome, value.length,
      (f.tlv value mask).length⟩ := by
  have hsize : size = value.length := some.inj (hf.size_eq.symm.trans hs.1)
  subst hsize
  have hhdr : At buf offset (f.header (maskBit mask) value.length) := by
    rw [OxmField.tlv, ← List.append_assoc] at hat
    exact hat.left
  rw [parseHeaderImpl_header hf (maskBit_le mask) hhdr, length_tlv f hs]
  cases mask <;> rfl

/-- The parser reads a field of the table back from its bytes. -/
theorem oxmParse_tlv (hat : At buf offset (f.tlv value mask)) :
    oxmParse buf offset = .ok (f.num, value, mask, (f.tlv value mask).length) := by
  have hpos : 0 < value.length := some.inj (hf.size_eq.symm.trans hs.1) ▸ hf.pos
  have hrest : At buf (offset + (4 + f.expHdr.length)) (value ++ mask.getD []) := by
    simpa [Nat.add_assoc] using hat.right.right
  have hstr : ∀ b : Bytes, encode [s b.length] [.bytes b] = b := by simp [encode]
  have hex : ∀ b : Bytes, exact [s b.length] [.bytes b] = true := by simp [Struct.exact]
  rw [oxmParse, parseHeaderImpl_tlv hf hs hat]
  simp only [ok_bind]
  rw [unpackFrom_at (hex value) hpos (by rw [hstr]; exact hrest.left)]
  cases mask with
  | none => simp
  | some m =>
    have hm : m.length = value.length := hs.2 m rfl
    have hmask : unpackFrom [s value.length] buf
        (offset + (4 + f.expHdr.length) + value.length) = .ok [.bytes m] := by
      rw [← hm, unpackFrom_at (hex m) (by simp [calcsize]; omega) (by
        rw [hstr, hm]
        exact hrest.right)]
    simp [hmask]

end

/-! ## Fields as users see them -/

section User

variable {conv : Addrconv}

theorem OxmField.Entry.oxmFromUser_eq (hf : f.Entry size) (conv : Addrconv) (uv : UserValue) :
    oxmFromUser conv (.named f.name) uv = (do
      let value ← f.type.fromUser conv uv.1
      match uv.2 with
      | none => return (f.num, value, none)
      | some m => return (f.num, value, some (← f.type.fromUser conv m))) := by
  simp only [oxmFromUser, getFieldInfoByName, hf.byName, ok_bind]

theorem OxmField.Entry.oxmToUser_eq (hf : f.Entry size) (conv : Addrconv) (mask : Option Bytes)
    (hlen : f.type.size = some value.length) : oxmToUser conv f.num value mask = (do
      let v ← f.type.toUser conv value
      match mask with
      | none => return (.named f.name, v, none)
      | some m => return (.named f.name, v, some (← f.type.toUser conv m))) := by
  simp [oxmToUser, getFieldInfoByNumber, hf.byNum, hlen]

/-- A value of the right width has a user form, which converts back to it. -/
theorem oxmToUser_oxmFromUser (conv : Addrconv) (hf : f.Entry size) (hs : f.Sized value mask) :
    ∃ uv, oxmToUser conv f.num value mask = .ok (.named f.name, uv) ∧
      oxmFromUser conv (.named f.name) uv = .ok (f.num, value, mask) := by
  obtain ⟨u, hto, hfrom⟩ := f.type.toUser_fromUser conv hs.1 rfl
  simp only [hf.oxmToUser_eq conv mask hs.1, hf.oxmFromUser_eq, hto]
  cases mask with
  | none => exact ⟨(u, none), rfl, by simp [hfrom]⟩
  | some m =>
    have hm : f.type.size = some m.length := by rw [hs.2 m rfl, hs.1]
    obtain ⟨um, hmto, hmfrom⟩ := f.type.toUser_fromUser conv hm rfl
    exact ⟨(u, some um), by simp [hmto], by simp [hfrom, hmfrom]⟩

/-- The conversions of a value and its mask succeed, as they do for values within the width of an
integer field and for addresses in any text that can be read. -/
def OxmField.Accepts (f : OxmField) (conv : Addrconv) (uv : UserValue) : Prop :=
  (∃ b, f.type.fromUser conv uv.1 = .ok b) ∧
    ∀ m, uv.2 = some m → ∃ b, f.type.fromUser conv m = .ok b

variable {uv : UserValue}

theorem oxmFromUser_accepts (hf : f.Entry size) (h : f.Accepts conv uv) :
    ∃ value mask, oxmFromUser conv (.named f.name) uv = .ok (f.num, value, mask) ∧
      f.Sized value mask := by
  obtain ⟨⟨b, hb⟩, hm⟩ := h
  have hblen := TypeDesc.length_fromUser hf.size_eq hb
  simp only [hf.oxmFromUser_eq, hb]
  obtain ⟨u, _ | um⟩ := uv
  · exact ⟨b, none, rfl, by rw [hf.size_eq, hblen], by simp⟩
  · obtain ⟨b', hb'⟩ := hm um rfl
    have hblen' := TypeDesc.length_fromUser hf.size_eq hb'
    refine ⟨b, some b', by simp [hb'], by rw [hf.size_eq, hblen], ?_⟩
    rintro m ⟨rfl⟩
    rw [hblen, hblen']

/-- Normalizing a pair that converts gives a pair that converts, under the same name. -/
theorem oxmNormalizeUser_accepts (hf : f.Entry size) (h : f.Accepts conv uv) :
    ∃ uv' value mask, oxmNormalizeUser conv (.named f.name) uv = .ok (.named f.name, uv') ∧
      oxmFromUser conv (.named f.name) uv' = .ok (f.num, value, mask) ∧ f.Sized value mask := by
  obtain ⟨value, mask, hfrom, hs⟩ := oxmFromUser_accepts hf h
  have hs' : f.Sized (applyMask value mask) mask := by
    cases mask with
    | none => exact hs
    | some m =>
      have hlen : (applyMask value (some m)).length = value.length := by
        rw [applyMask, List.length_zipWith, hs.2 m rfl, Nat.min_self]
      exact ⟨by rw [hlen, hs.1], fun m' hm' => by rw [hlen, hs.2 m' hm']⟩
  obtain ⟨uv', hto, hback⟩ := oxmToUser_oxmFromUser conv hf hs'
  refine ⟨uv', _, mask, ?_, hback, hs'⟩
  rw [oxmNormalizeUser, hfrom]
  simp only [hto]
  simp [pyAssert]

end User

end BebaCtrl
