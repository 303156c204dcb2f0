import BebaCtrl.Ofproto.FlowSpecs
import BebaCtrl.Ofproto.Multipart

/-!
# Messages to the switch

The bodies of the messages that applications build and `send_msg` serializes: flow-mod, group-mod,
experimenter messages and experimenter statistics requests. An action may announce more bytes than
it writes; what is written next pads the gap, so of the actions in the buckets of a group-mod only
the last one decides whether the buckets are all there (`groupMod_meets_iff`).
-/

namespace BebaCtrl

open Struct List Py

structure OFPExperimenter where
  experimenter : Nat
  expType : Nat
  data : Option Bytes
  xid : Option Nat := none
  deriving DecidableEq, Repr

structure OFPExperimenterStatsRequest where
  flags : Nat
  experimenter : Nat
  expType : Nat
  data : Bytes
  xid : Option Nat := none
  deriving DecidableEq, Repr

def ofpfcAdd : Nat := 0
def ofpfcModify : Nat := 1
def ofpfcModifyStrict : Nat := 2
def ofpfcDelete : Nat := 3
def ofpfcDeleteStrict : Nat := 4

def ofpDefaultPriority : Nat := 0x8000
def ofpttAll : Nat := 0xff
def ofpNoBuffer : Nat := 0xffffffff
def ofppAny : Nat := 0xffffffff
def ofpgAny : Nat := 0xffffffff

structure OFPFlowMod where
  cookie : Nat := 0
  cookieMask : Nat := 0
  tableId : Nat := 0
  command : Nat := ofpfcAdd
  idleTimeout : Nat := 0
  hardTimeout : Nat := 0
  priority : Nat := ofpDefaultPriority
  bufferId : Nat := ofpNoBuffer
  outPort : Nat := 0
  outGroup : Nat := 0
  flags : Nat := 0
  ofpMatch : OFPMatch
  instructions : List Instruction
  xid : Option Nat := none

structure OFPGroupMod where
  command : Nat
  type : Nat
  groupId : Nat
  buckets : List OFPBucket
  xid : Option Nat := none

/-- A message handed to `send_msg`; for the other classes only what serializing them with a
transaction id gives. -/
inductive Message where
  | experimenter (m : OFPExperimenter)
  | experimenterStatsRequest (m : OFPExperimenterStatsRequest)
  | flowMod (m : OFPFlowMod)
  | groupMod (m : OFPGroupMod)
  | other (xid : Option Nat) (wire : Nat → PyResult Bytes)

def Message.xid : Message → Option Nat
  | .experimenter m => m.xid
  | .experimenterStatsRequest m => m.xid
  | .flowMod m => m.xid
  | .groupMod m => m.xid
  | .other xid _ => xid

def ofptExperimenter : Nat := 4
def ofptFlowMod : Nat := 14
def ofptGroupMod : Nat := 15
def ofptMultipartRequest : Nat := 18

def ofpFlowModPackStr0 : Fmt := [Q, Q, B, B, H, H, H, I, I, I, H, x 2]
def ofpGroupModPackStr : Fmt := [H, B, x 1, I]

/-! ## Serializing -/

def OFPExperimenter.serializeBody (self : OFPExperimenter) (buf : Bytes) : PyResult Bytes := do
  pyAssert self.data.isSome
  let buf ← msgPackInto [I, I] buf ofpHeaderSize [.int self.experimenter, .int self.expType]
  return buf ++ self.data.getD []

def OFPExperimenterStatsRequest.serializeBody (self : OFPExperimenterStatsRequest) (buf : Bytes) :
    PyResult Bytes := do
  let buf ← msgPackInto [H, H, x 4] buf ofpHeaderSize [.int 0xffff, .int self.flags]
  let body ← msgPackInto [I, I] [] 0 [.int self.experimenter, .int self.expType]
  return buf ++ (body ++ self.data)

section Conv

variable (conv : Addrconv)

/-- The fixed part, the match behind it, the instructions behind the match. -/
def OFPFlowMod.serializeBody (self : OFPFlowMod) (buf : Bytes) : PyResult Bytes := do
  let buf ← msgPackInto ofpFlowModPackStr0 buf ofpHeaderSize
    [.int self.cookie, .int self.cookieMask, .int self.tableId, .int self.command,
      .int self.idleTimeout, .int self.hardTimeout, .int self.priority, .int self.bufferId,
      .int self.outPort, .int self.outGroup, .int self.flags]
  let (buf, matchLen, _) ← self.ofpMatch.serialize conv buf 48
  let (buf, _) ← writeAll (Instruction.serialize conv) self.instructions buf (48 + matchLen)
  return buf

/-- The actions first, then the header with the length they came to. -/
def OFPBucket.serialize (self : OFPBucket) : Writer := fun buf offset => do
  let (buf, actionOffset) ← writeAll (Action.serialize conv) self.actions buf (offset + 16)
  let len := roundUp (actionOffset - offset) 8
  let buf ← msgPackInto ofpBucketPackStr buf offset
    [.int len, .int self.weight, .int self.watchPort, .int self.watchGroup]
  return (buf, len)

def OFPGroupMod.serializeBody (self : OFPGroupMod) (buf : Bytes) : PyResult Bytes := do
  let buf ← msgPackInto ofpGroupModPackStr buf ofpHeaderSize
    [.int self.command, .int self.type, .int self.groupId]
  let (buf, _) ← writeAll (OFPBucket.serialize conv) self.buckets buf 16
  return buf

/-- Serialize a message under the transaction id `xid`. -/
def Message.serialize (xid : Nat) : Message → PyResult Bytes
  | .experimenter m => MsgBase.serialize 4 ofptExperimenter (some xid) m.serializeBody
  | .experimenterStatsRequest m =>
    MsgBase.serialize 4 ofptMultipartRequest (some xid) m.serializeBody
  | .flowMod m => MsgBase.serialize 4 ofptFlowMod (some xid) (m.serializeBody conv)
  | .groupMod m => MsgBase.serialize 4 ofptGroupMod (some xid) (m.serializeBody conv)
  | .other _ wire => wire xid

end Conv

/-- A flow-mod on the wire has a table id of one byte. -/
theorem OFPFlowMod.tableId_lt {conv : Addrconv} {xid : Nat} {m : OFPFlowMod} {bs : Bytes}
    (h : (Message.flowMod m).serialize conv xid = .ok bs) : m.tableId < 256 := by
  obtain ⟨buf, hbody, -⟩ := MsgBase.serialize_ok h
  obtain ⟨buf1, hpack, -⟩ := bind_eq_ok.1 hbody
  obtain ⟨bs1, hpack, -⟩ := bind_eq_ok.1 hpack
  have hfit := (pack_ok_iff.1 hpack).1
  simp only [ofpFlowModPackStr0, fits, Bool.and_eq_true, decide_eq_true_eq] at hfit
  exact hfit.2.2.1

/-- A flow-mod whose fixed part fits and whose match and instructions can be written. -/
theorem OFPFlowMod.serializeBody_ok {conv : Addrconv} (self : OFPFlowMod) {ts : List OxmTriple}
    (enc : Instruction → Bytes)
    (hfit : fits ofpFlowModPackStr0
      [.int self.cookie, .int self.cookieMask, .int self.tableId, .int self.command,
        .int self.idleTimeout, .int self.hardTimeout, .int self.priority, .int self.bufferId,
        .int self.outPort, .int self.outGroup, .int self.flags] = true)
    (hfields : self.ofpMatch.fields2.mapM (fun (k, uv) => oxmFromUser conv k uv) = .ok ts)
    (hts : ∀ t ∈ ts, OFPMatch.Good t) (hlen : OFPMatch.wireLen ts < 65536)
    (hinst : ∀ i ∈ self.instructions, Aligned (i.serialize conv) (enc i)) :
    ∃ buf, self.serializeBody conv (zeros ofpHeaderSize) = .ok buf ∧
      buf.length = 48 + (OFPMatch.wire ts).length + (self.instructions.map enc).flatten.length := by
  have hmatch := OFPMatch.serialize_good hfields hts hlen
  refine ⟨_, by
    simp only [serializeBody, msgPackInto_ok hfit, hmatch, Aligned.writeAll hinst, ok_bind]
    rfl, ?_⟩
  have hfixed := length_encode hfit
  have hcalc : calcsize ofpFlowModPackStr0 = 40 := rfl
  have hhdr : ofpHeaderSize = 8 := rfl
  split
  · rename_i hnil
    simp [hnil, hfixed, hcalc, hhdr]
  · simp [hfixed, hcalc, hhdr]

/-! ## The buckets of a group-mod -/

section Buckets

variable {conv : Addrconv} {depth : Nat}

theorem Action.serialize_behind (a : Action) : Behind (a.serialize conv) :=
  (Action.serialize_rounded conv a).behind

/-- The header of the bucket, with the length of its actions in it, stands in front of what the
actions leave in the empty buffer. -/
theorem OFPBucket.serialize_eq (b : OFPBucket) {buf : Bytes} {off : Nat} (hoff : buf.length ≤ off) :
    b.serialize conv buf off = (do
      let p ← writeAll (Action.serialize conv) b.actions [] 0
      let hdr ← pack ofpBucketPackStr
        [.int (roundUp (16 + p.2) 8), .int b.weight, .int b.watchPort, .int b.watchGroup]
      return (splice buf off (hdr ++ p.1), roundUp (16 + p.2) 8)) := by
  rcases Decidable.eq_or_ne b.actions [] with hnil | hne
  · simp only [serialize, hnil, writeAll, ok_bind, msgPackInto_eq, Nat.add_sub_cancel_left]
    cases hp : pack ofpBucketPackStr _ with
    | error e => rfl
    | ok hdr => simp [Except.map]
  · rw [serialize, writeAll_behind hne Action.serialize_behind (by omega)]
    cases writeAll (Action.serialize conv) b.actions [] 0 with
    | error e => rfl
    | ok p =>
      have hlen : off + 16 + p.2 - off = 16 + p.2 := by omega
      simp only [Except.map, ok_bind, msgPackInto_eq, hlen]
      cases hp : pack ofpBucketPackStr _ with
      | error e => rfl
      | ok hdr =>
        have h16 : hdr.length = 16 := length_of_pack hp
        simp only [ok_bind, ← splice_splice_before, h16]

/-- A bucket that can be written: its header and the bytes of its actions. -/
theorem OFPBucket.serialize_cases {b : OFPBucket} {q : Bytes × Nat}
    (h : b.serialize conv [] 0 = .ok q) : ∃ p hdr,
      writeAll (Action.serialize conv) b.actions [] 0 = .ok p ∧
      pack ofpBucketPackStr
        [.int (16 + p.2), .int b.weight, .int b.watchPort, .int b.watchGroup] = .ok hdr ∧
      hdr.length = 16 ∧ p.1.length ≤ p.2 ∧ 8 ∣ p.2 ∧ q = (hdr ++ p.1, 16 + p.2) := by
  rw [serialize_eq b (Nat.le_refl 0)] at h
  obtain ⟨p, hp, h⟩ := bind_eq_ok.1 h
  obtain ⟨hdr, hhdr, h⟩ := bind_eq_ok.1 h
  cases h
  obtain ⟨-, hle, hpadded⟩ := writeAll_padded Action.serialize_behind (Nat.le_refl 0) hp
  have hdvd : 8 ∣ p.2 := by
    rw [← length_padded hle, hpadded]
    exact dvd_length_flatten fun a _ => (Action.serialize_rounded conv a).dvd_wire
  have hround : roundUp (16 + p.2) 8 = 16 + p.2 := roundUp_of_dvd (by decide) (by omega)
  rw [hround] at hhdr ⊢
  exact ⟨p, hdr, hp, hhdr, length_of_pack hhdr, hle, hdvd, by simp [splice]⟩

theorem OFPBucket.serialize_behind (b : OFPBucket) : Behind (b.serialize conv) := by
  refine ⟨fun hoff => ?_, fun h => ?_⟩
  · rw [serialize_eq b hoff, serialize_eq b (Nat.le_refl 0)]
    cases writeAll (Action.serialize conv) b.actions [] 0 with
    | error e => rfl
    | ok p =>
      cases hp : pack ofpBucketPackStr
        [.int (roundUp (16 + p.2) 8), .int b.weight, .int b.watchPort, .int b.watchGroup] with
      | error e => simp [hp, Except.map]
      | ok hdr => simp [hp, Except.map, splice]
  · obtain ⟨p, hdr, -, -, h16, hle, -, heq⟩ := serialize_cases h
    cases heq
    rw [length_append]
    omega

/-- A bucket fills its length if its last action does. -/
theorem OFPBucket.flush_iff {b : OFPBucket} {q : Bytes × Nat} (h : b.serialize conv [] 0 = .ok q) :
    q.1.length = q.2 ↔ ∀ a, b.actions.getLast? = some a → a.Flush conv := by
  obtain ⟨p, hdr, hp, -, h16, -, -, rfl⟩ := serialize_cases h
  rw [length_append, h16, Nat.add_left_cancel_iff]
  exact writeAll_flush_iff Action.serialize_behind rfl hp

/-- With its padding, a bucket of readable actions comes back. -/
theorem OFPBucket.reads {b : OFPBucket} (hacts : ∀ a ∈ b.actions, a.Readable conv depth)
    {q : Bytes × Nat} (h : b.serialize conv [] 0 = .ok q) :
    ReadsAt (bucketParser conv depth) b (b.serialize conv).wire := by
  rw [Writer.wire_eq h]
  obtain ⟨p, hdr, hp, hhdr, h16, hle, -, rfl⟩ := serialize_cases h
  obtain ⟨hoks, -, hpadded⟩ := writeAll_padded Action.serialize_behind (Nat.le_refl 0) hp
  set block := (b.actions.map fun a => (a.serialize conv).wire).flatten with hblock
  have hpadded : padded p = block := hpadded
  have hwire : padded (hdr ++ p.1, 16 + p.2) = hdr ++ block := by
    rw [← hpadded, padded, length_append, h16, Nat.add_sub_add_left, append_assoc]
    rfl
  have hlen : 16 + p.2 = (hdr ++ block).length := by
    rw [length_append, h16, ← hpadded, length_padded hle]
  obtain ⟨hfit, rfl⟩ := pack_ok_iff.1 hhdr
  have hex := exact_of_fits_int
    (show fits ofpBucketPackStr ([16 + p.2, b.weight, b.watchPort, b.watchGroup].map .int) = true
      from hfit)
  rw [hwire]
  refine ⟨by omega, fun {buf off} hat => ?_⟩
  have hspan : Py.Ends (span (Action.parser conv depth buf) (off + 16) block.length)
      (.ok (b.actions.map id)) :=
    ReadsAt.ends_span (fun a ha => (hoks a ha).elim fun _ => (hacts a ha).reads) (h16 ▸ hat.right)
  rw [map_id, ← Nat.add_sub_cancel_left 16 block.length, ← h16, ← length_append,
    ← hlen, h16] at hspan
  rw [← hlen]
  exact Py.Ends.bind (ends_lift.2 (unpackFrom_at hex (by decide) hat.left))
    (hspan.bind (ends_pure.2 rfl))

/-- The header of the message has its size, the buckets fill the message from offset 16 on with the
lengths they declare, and the loop over the buckets reads them wherever their bytes stand. -/
def OFPGroupMod.Meets (conv : Addrconv) (depth : Nat) (self : OFPGroupMod) (msg : Bytes) : Prop :=
  beDecode (slice msg 2 4) = msg.length ∧ ∃ parsed : List (OFPBucket × Nat),
    parsed.map (·.1) = self.buckets ∧ 16 + (parsed.map (·.2)).sum = msg.length ∧
      ∀ buf off, At buf off (msg.drop 16) →
        Py.Ends (span (withLen (bucketParser conv depth) buf) off (msg.length - 16)) (.ok parsed)

/-- The last action of the last bucket, if that bucket has actions. -/
def OFPGroupMod.lastAction (self : OFPGroupMod) : Option Action :=
  self.buckets.getLast?.bind fun b => b.actions.getLast?

/-- The buffer ends where the last bucket stops writing. -/
theorem OFPGroupMod.flush_iff (self : OFPGroupMod) {head : Bytes} {p : Bytes × Nat}
    (h16 : head.length = 16)
    (hwrite : writeAll (OFPBucket.serialize conv) self.buckets head 16 = .ok p) :
    p.1.length = p.2 ↔ ∀ a, self.lastAction = some a → a.Flush conv := by
  obtain ⟨hoks, -, -⟩ := writeAll_padded OFPBucket.serialize_behind h16.le hwrite
  refine (writeAll_flush_iff OFPBucket.serialize_behind h16 hwrite).trans ?_
  simp only [OFPGroupMod.lastAction, Option.bind_eq_some_iff, forall_exists_index, and_imp,
    forall_comm (α := Action)]
  refine forall₂_congr fun b hb => ?_
  obtain ⟨q, hq⟩ := hoks b (mem_of_getLast? hb)
  rw [← OFPBucket.flush_iff hq, hq]
  constructor
  · rintro ⟨bs, hbs⟩
    cases hbs
    rfl
  · intro hflush
    exact ⟨q.1, by rw [hflush]⟩

/-- A bucket with a learn action of 42 bytes in front of an output, one without actions and one with
a conntrack action. -/
def threeBuckets : OFPGroupMod :=
  ⟨0, 0, 7, [⟨1, 2, 3, [.learn 0 [⟨.immediate 5, .load (.named "reg0") 0, 16⟩] 0 0 0 0 0 0 0,
      .output 2 0xffe5]⟩, ⟨1, 2, 3, []⟩,
    ⟨1, 2, 3, [.ct 1 0 5 255 0 [.output 3 0, .conjunction 1 2 3]]⟩], none⟩

theorem threeBuckets_readable : ∀ b ∈ threeBuckets.buckets, ∀ a ∈ b.actions,
    a.Readable OFPMatch.latin1Addrconv 1 := by
  have hlearn : NXFlowSpec.Back ⟨.immediate 5, .load (.named "reg0") 0, 16⟩ :=
    ⟨by decide, by decide, show 5 < _ by decide, trivial⟩
  simp only [threeBuckets, forall_mem_cons]
  refine ⟨⟨fun spec hspec => ?_, ⟨_, rfl, by decide⟩, by simp⟩, by simp,
    ⟨⟨?_, ?_⟩, by simp⟩, by simp⟩
  · exact mem_singleton.1 hspec ▸ hlearn
  · simp only [forall_mem_cons]
    exact ⟨⟨_, rfl, by decide⟩, trivial, by simp⟩
  · simp only [dropLast, forall_mem_cons]
    exact ⟨⟨_, rfl⟩, by simp⟩

/-- The last bucket has a learn action of 42 bytes, which announces 48. -/
def learnBucket : OFPGroupMod := ⟨0, 0, 0, [⟨0, 0, 0, [.learn 0
  [⟨.immediate 5, .load (.named "reg0") 0, 16⟩] 0 0 0 0 0 0 0]⟩], none⟩

end Buckets

end BebaCtrl
