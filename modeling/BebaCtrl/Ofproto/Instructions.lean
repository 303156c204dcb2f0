import BebaCtrl.Ofproto.Actions

/-!
# Instructions

An instruction is one packed structure, or a header in front of a list of actions. Flow-mod writes
its instructions one after another behind the match; the parser of flow statistics reads them back
with a loop of its own around the loop for the actions.

The main result is `instructions_roundTrip`.
-/

namespace BebaCtrl

open Struct List Py

inductive Instruction where
  | gotoTable (tableId : Nat)
  | writeMetadata (metadata metadataMask : Nat)
  | actions (type : Nat) (actions : List Action)
  | meter (meterId : Nat)
  deriving Repr

def ofpitGotoTable : Nat := 1
def ofpitWriteMetadata : Nat := 2
def ofpitWriteActions : Nat := 3
def ofpitApplyActions : Nat := 4
def ofpitClearActions : Nat := 5
def ofpitMeter : Nat := 6

def ofpInstructionGotoTablePackStr : Fmt := [H, H, B, x 3]
def ofpInstructionWriteMetadataPackStr : Fmt := [H, H, x 4, Q, Q]
def ofpInstructionActionsPackStr : Fmt := [H, H, x 4]
def ofpInstructionActionsSize : Nat := 8
def ofpInstructionMeterPackStr : Fmt := [H, H, I]

namespace Instruction

/-- The instructions of a fixed layout. -/
def layout : Instruction → Option FixedLayout
  | gotoTable tableId => some ⟨ofpitGotoTable, ofpInstructionGotoTablePackStr, [tableId]⟩
  | writeMetadata metadata metadataMask =>
    some ⟨ofpitWriteMetadata, ofpInstructionWriteMetadataPackStr, [metadata, metadataMask]⟩
  | meter meterId => some ⟨ofpitMeter, ofpInstructionMeterPackStr, [meterId]⟩
  | actions _ _ => none

section Conv

variable (conv : Addrconv)

/-- The actions first, then padding, then the header with the length they came to. -/
def actionsSerialize (type : Nat) (acts : List Action) : Writer := fun buf offset => do
  let (buf, actionOffset) ←
    writeAll (Action.serialize conv) acts buf (offset + ofpInstructionActionsSize)
  let len := actionOffset - offset
  let padLen := roundUp len 8 - len
  let buf ← msgPackInto [x padLen] buf actionOffset []
  let len := len + padLen
  let buf ← msgPackInto ofpInstructionActionsPackStr buf offset [.int type, .int len]
  return (buf, len)

/-- Write an instruction; the result is the buffer and the instruction's `len`. -/
def serialize : Instruction → Writer
  | actions type acts => actionsSerialize conv type acts
  | i => fun buf offset =>
    match i.layout with
    | some l => l.write buf offset
    | none => throw .attributeError

def gotoTableParser (buf : Bytes) (offset : Nat) : PyResult (Instruction × Nat) := do
  let [.int _, .int _, .int tableId] ← unpackFrom ofpInstructionGotoTablePackStr buf offset
    | throw .valueError
  return (gotoTable tableId, calcsize ofpInstructionGotoTablePackStr)

def writeMetadataParser (buf : Bytes) (offset : Nat) : PyResult (Instruction × Nat) := do
  let [.int _, .int _, .int metadata, .int metadataMask] ←
    unpackFrom ofpInstructionWriteMetadataPackStr buf offset | throw .valueError
  return (writeMetadata metadata metadataMask, calcsize ofpInstructionWriteMetadataPackStr)

def meterParser (buf : Bytes) (offset : Nat) : PyResult (Instruction × Nat) := do
  let [.int _, .int _, .int meterId] ← unpackFrom ofpInstructionMeterPackStr buf offset
    | throw .valueError
  return (meter meterId, calcsize ofpInstructionMeterPackStr)

variable (depth : Nat)

def actionsParser (buf : Bytes) (offset : Nat) : Py (Instruction × Nat) := do
  let [.int type, .int len] ← unpackFrom ofpInstructionActionsPackStr buf offset
    | Py.raise .valueError
  let acts ← span (Action.parser conv depth buf) (offset + ofpInstructionActionsSize)
    (len - ofpInstructionActionsSize)
  return (actions type acts, len)

/-- `OFPInstruction.parser`: the instruction and its `len`. -/
def parser (buf : Bytes) (offset : Nat) : Py (Instruction × Nat) := do
  let [.int type, .int _] ← unpackFrom [H, H] buf offset | Py.raise .valueError
  if type = ofpitGotoTable then liftM (gotoTableParser buf offset)
  else if type = ofpitWriteMetadata then liftM (writeMetadataParser buf offset)
  else if type = ofpitWriteActions ∨ type = ofpitApplyActions ∨ type = ofpitClearActions then
    actionsParser conv depth buf offset
  else if type = ofpitMeter then liftM (meterParser buf offset)
  -- no class is registered: `None.parser`
  else Py.raise .attributeError

/-- The loop over the instructions of flow statistics. -/
def listParser (buf : Bytes) (offset instLength : Nat) : Py (List (Instruction × Nat)) :=
  span (withLen (parser conv depth) buf) offset instLength

end Conv

/-! ## The round trip -/

/-- Instructions that come back from the wire: values and the length fit their fields, and the
actions are regular. -/
def Regular (conv : Addrconv) : Instruction → Prop
  | actions type acts => (type = ofpitWriteActions ∨ type = ofpitApplyActions ∨
      type = ofpitClearActions) ∧ (∀ a ∈ acts, a.Regular conv) ∧
      ∃ block total, writeAll (Action.serialize conv) acts [] 0 = .ok (block, total) ∧
        8 + total < 256 ^ 2
  | i => ∃ l, i.layout = some l ∧ fits l.packStr l.vals = true

theorem encodes_fixed (conv : Addrconv) {i : Instruction} {l : FixedLayout}
    (h : i.layout = some l) (hfit : fits l.packStr l.vals = true) (depth : Nat) :
    Encodes (i.serialize conv) (parser conv depth) i (encode l.packStr l.vals) := by
  obtain ⟨tail, htail, hpos, hdvd⟩ :
      ∃ tail, l.packStr = H :: H :: tail ∧ 0 < l.len ∧ 8 ∣ l.len := by
    cases i <;> cases h <;>
      exact ⟨_, rfl, by simp only [FixedLayout.len]; decide, by simp only [FixedLayout.len]; decide⟩
  have hser : i.serialize conv = l.write := by
    cases i <;> cases h <;> rfl
  rw [hser]
  refine FixedLayout.encodes hfit hpos hdvd ?_
  intro buf off hat hvals
  obtain ⟨ht, hl, -, hat⟩ := FixedLayout.header_at htail hfit hat
  have hhdr : unpackFrom [H, H] buf off = .ok [.int l.type, .int l.len] :=
    unpackFrom_at (by simpa [Struct.exact] using ⟨ht, hl⟩) (by decide) hat.left
  refine Py.Ends.bind (ends_lift.2 hhdr) ?_
  cases i with
  | gotoTable tableId =>
    cases h
    refine ends_lift.2 ?_
    rw [gotoTableParser, hvals]
    rfl
  | writeMetadata metadata metadataMask =>
    cases h
    refine ends_lift.2 ?_
    rw [writeMetadataParser, hvals]
    rfl
  | meter meterId =>
    cases h
    refine ends_lift.2 ?_
    rw [meterParser, hvals]
    rfl
  | actions type acts => cases h

variable {conv : Addrconv} {type : Nat} {acts : List Action}

theorem actionsSerialize_aligned {enc : Action → Bytes}
    (h : ∀ a ∈ acts, Aligned (a.serialize conv) (enc a))
    (hfit : fits ofpInstructionActionsPackStr
      [.int type, .int (8 + (acts.map enc).flatten.length)] = true) :
    Aligned (actionsSerialize conv type acts) (encode ofpInstructionActionsPackStr
      [.int type, .int (8 + (acts.map enc).flatten.length)] ++ (acts.map enc).flatten) := by
  set block := (acts.map enc).flatten with hblock
  have hdvd : 8 ∣ block.length := dvd_length_flatten fun a ha => (h a ha).dvd
  have hsize : (encode ofpInstructionActionsPackStr [.int type, .int (8 + block.length)] ++
      block).length = 8 + block.length := by
    rw [length_append, length_encode hfit]
    rfl
  refine ⟨fun buf off => ?_, by omega⟩
  have hlen : off + 8 + block.length - off = 8 + block.length := by omega
  have hround : roundUp (8 + block.length) 8 = 8 + block.length :=
    roundUp_of_dvd (by decide) (by omega)
  have hpad : pack [x 0] [] = .ok [] := rfl
  -- with or without actions, the buffer has the block behind the room for the header
  have hbuf : splice (if acts = [] then buf else splice buf (off + 8) block)
      (off + 8 + block.length) [] = splice buf (off + 8) block := by
    split
    · rename_i hnil
      rw [hblock, hnil]
      rfl
    · rw [splice_splice, append_nil]
  have hhdr := splice_splice_before buf off (encode ofpInstructionActionsPackStr
    [.int type, .int (8 + block.length)]) block
  rw [actionsSerialize, Aligned.writeAll h]
  simp only [ofpInstructionActionsSize, hlen, hround, Nat.sub_self, Nat.add_zero, msgPackInto_eq,
    hpad, pack_eq_ok hfit, Except.map, ← hblock, hbuf, ok_bind]
  rw [hsize]
  exact congrArg (fun b => Except.ok (b, 8 + block.length)) hhdr

theorem encodes_actions (h : (actions type acts).Regular conv) :
    ∃ bs, ∀ depth, Encodes ((actions type acts).serialize conv) (parser conv depth)
      (actions type acts) bs := by
  obtain ⟨htype, hacts, block', total, hwrite, htotal⟩ := h
  choose! enc henc using fun a ha => (hacts a ha).encodes
  set block := (acts.map enc).flatten with hblock
  have hlt : 8 + block.length < 256 ^ 2 := by
    rw [Aligned.writeAll fun a ha => (henc a ha 0).aligned] at hwrite
    cases hwrite
    rw [hblock]
    omega
  have htypeLt : type < 256 ^ 2 := by
    rcases htype with rfl | rfl | rfl <;> decide
  have hfit : fits ofpInstructionActionsPackStr [.int type, .int (8 + block.length)] = true := by
    simpa [fits, ofpInstructionActionsPackStr] using ⟨htypeLt, hlt⟩
  have hsize : (encode ofpInstructionActionsPackStr [.int type, .int (8 + block.length)] ++
      block).length = 8 + block.length := by
    rw [length_append, length_encode hfit]
    rfl
  refine ⟨encode ofpInstructionActionsPackStr [.int type, .int (8 + block.length)] ++ block,
    fun depth => ?_⟩
  have hall : ∀ a ∈ acts, Encodes (a.serialize conv) (Action.parser conv depth) a (enc a) :=
    fun a ha => henc a ha depth
  have haligned : ∀ a ∈ acts, Aligned (a.serialize conv) (enc a) := fun a ha => (hall a ha).aligned
  obtain ⟨hwrites, hdvd⟩ := actionsSerialize_aligned haligned hfit
  refine ⟨hwrites, by omega, hdvd, ?_⟩
  intro buf off hat
  have hat2 : At buf off (encode [H, H] [.int type, .int (8 + block.length)] ++
      (zeros 4 ++ block)) := by
    simpa [ofpInstructionActionsPackStr, encode] using hat
  have hhdr : unpackFrom [H, H] buf off = .ok [.int type, .int (8 + block.length)] :=
    unpackFrom_at (by simpa [Struct.exact] using ⟨htypeLt, hlt⟩) (by decide) hat2.left
  have hhdr' : unpackFrom ofpInstructionActionsPackStr buf off =
      .ok [.int type, .int (8 + block.length)] :=
    Action.unpackFrom_header htypeLt hlt (by simp) hat2
  have hblockAt : At buf (off + 8) block := by
    have hright := hat.right
    rwa [length_encode hfit] at hright
  have hspan := ReadsAt.ends_span (f := id) (fun a ha => (hall a ha).reads) hblockAt
  rw [map_id] at hspan
  rw [hsize]
  refine Py.Ends.bind (ends_lift.2 hhdr) ?_
  have hgoto : type ≠ ofpitGotoTable := by rcases htype with rfl | rfl | rfl <;> decide
  have hmeta : type ≠ ofpitWriteMetadata := by rcases htype with rfl | rfl | rfl <;> decide
  simp only [if_neg hgoto, if_neg hmeta, if_pos htype]
  refine Py.Ends.bind (ends_lift.2 hhdr') ?_
  simp only [ofpInstructionActionsSize, Nat.add_sub_cancel_left]
  exact hspan.bind (ends_pure.2 rfl)

theorem Regular.encodes {i : Instruction} (h : i.Regular conv) :
    ∃ bs, ∀ depth, Encodes (i.serialize conv) (parser conv depth) i bs := by
  cases i with
  | actions type acts => exact encodes_actions h
  | _ =>
    obtain ⟨l, hl, hfit⟩ := h
    exact ⟨_, encodes_fixed conv hl hfit⟩

/-- Regular instructions written one after another into any buffer: each writes as many bytes as
its length says, a multiple of eight; the loop of flow statistics reads the same instructions with
the same lengths, and ends at the offset where writing ended. -/
theorem instructions_roundTrip (conv : Addrconv) (depth : Nat) (insts : List Instruction)
    (h : ∀ i ∈ insts, i.Regular conv) (buf : Bytes) (off : Nat) :
    ∃ (enc : Instruction → Bytes) (buf' : Bytes) (off' : Nat) (parsed : List (Instruction × Nat)),
      (∀ i ∈ insts, Writes (i.serialize conv) (.ok (enc i, (enc i).length)) ∧
        8 ∣ (enc i).length) ∧
      writeAll (serialize conv) insts buf off = .ok (buf', off') ∧
      Py.Ends (listParser conv depth buf' off (off' - off)) (.ok parsed) ∧
      parsed = insts.map (fun i => (i, (enc i).length)) ∧
      off + (parsed.map (·.2)).sum = off' := by
  choose! enc henc using fun i hi => (h i hi).encodes
  have hall : ∀ i ∈ insts, Encodes (i.serialize conv) (parser conv depth) i (enc i) :=
    fun i hi => henc i hi depth
  have hwrite := Aligned.writeAll (fun i hi => (hall i hi).aligned) buf off
  refine ⟨enc, _, _, _, fun i hi => ⟨(hall i hi).writes, (hall i hi).dvd⟩, hwrite, ?_, rfl, ?_⟩
  · rw [Nat.add_sub_cancel_left]
    refine ReadsAt.ends_span (fun i hi => (hall i hi).reads.withLen) ?_
    split
    · rename_i hnil
      rw [hnil]
      exact at_nil _ _
    · exact at_splice _ _ _
  · rw [length_flatten, map_map, map_map]
    rfl

/-- Goto-table and an apply-actions instruction with an output, a set-field and an experimenter
action, written behind three bytes. -/
theorem instructions_roundTrip_apply :
    ∃ (enc : Instruction → Bytes) (buf' : Bytes) (off' : Nat) (parsed : List (Instruction × Nat)),
      (∀ i ∈ [gotoTable 3, actions ofpitApplyActions [.output 2 0xffe5,
          .setField (.named "vlan_pcp") (.int 5), .experimenterUnknown 7 (some (zeros 8))]],
        Writes (i.serialize OFPMatch.latin1Addrconv) (.ok (enc i, (enc i).length)) ∧
        8 ∣ (enc i).length) ∧
      writeAll (serialize OFPMatch.latin1Addrconv) [gotoTable 3, actions ofpitApplyActions
        [.output 2 0xffe5, .setField (.named "vlan_pcp") (.int 5),
          .experimenterUnknown 7 (some (zeros 8))]] [1, 2, 3] 3 = .ok (buf', off') ∧
      Py.Ends (listParser OFPMatch.latin1Addrconv 0 buf' 3 (off' - 3)) (.ok parsed) ∧
      parsed = [gotoTable 3, actions ofpitApplyActions [.output 2 0xffe5,
        .setField (.named "vlan_pcp") (.int 5),
        .experimenterUnknown 7 (some (zeros 8))]].map (fun i => (i, (enc i).length)) ∧
      3 + (parsed.map (·.2)).sum = off' := by
  refine instructions_roundTrip OFPMatch.latin1Addrconv 0 _ ?_ [1, 2, 3] 3
  intro i hi
  rcases mem_cons.1 hi with rfl | hi
  · exact ⟨_, rfl, by decide⟩
  · cases mem_singleton.1 hi
    refine ⟨.inr (.inl rfl), ?_, _, _, rfl, by decide⟩
    intro a ha
    rcases mem_cons.1 ha with rfl | ha
    · exact ⟨_, rfl, by decide⟩
    · rcases mem_cons.1 ha with rfl | ha
      · exact ⟨.openFlowBasic "vlan_pcp" 7 (.int 1), by decide, rfl, _, rfl, rfl⟩
      · cases mem_singleton.1 ha
        exact ⟨by decide, by decide, _, rfl, by decide, by decide⟩

set_option maxRecDepth 1000 in
/-- An experimenter action with the id of Nicira comes back as the Nicira action its data are. -/
theorem instructions_niciraId_conjunction :
    ∃ buf' off', writeAll (serialize OFPMatch.latin1Addrconv) [actions ofpitApplyActions
        [.experimenterUnknown nxExperimenterId (some [0, 34, 1, 2, 0, 0, 0, 7])]] [] 0 =
        .ok (buf', off') ∧
      Py.Ends (listParser OFPMatch.latin1Addrconv 0 buf' 0 off')
        (.ok [(actions ofpitApplyActions [.conjunction 1 2 7], off')]) :=
  ⟨_, _, rfl, 3, rfl⟩

end Instruction

end BebaCtrl
