import BebaCtrl.Ofproto.Actions

/-!
# Packet-out messages

`OFPPacketOut` writes its body out of order: the actions from offset 24 on, the packet data at what
is then the end of the buffer, the fixed part with the length of the actions last.

The message has the intended layout exactly when the buffer reaches the end of the actions before
the data is appended (`packetOut_layout_iff`). An empty list of actions leaves the buffer at the
message header, and a last action that does not write its padding leaves it short of the announced
length; in both cases the data ends up where it does not belong.
-/

namespace BebaCtrl

open Struct List

structure OFPPacketOut where
  bufferId : Nat
  inPort : Nat
  actions : List Action
  data : Option Bytes
  xid : Option Nat

def ofpPacketOutSize : Nat := 24
def ofpPacketOutPackStr : Fmt := [I, I, H, x 6]
def ofptPacketOut : Nat := 13

namespace OFPPacketOut

variable (conv : Addrconv)

def appendData (self : OFPPacketOut) (buf : Bytes) : PyResult Bytes :=
  match self.data with
  | none => .ok buf
  | some data => do
    pyAssert (self.bufferId = 0xffffffff)
    return buf ++ data

def serializeBody (self : OFPPacketOut) (buf : Bytes) : PyResult Bytes := do
  let (buf, offset) ← writeAll (Action.serialize conv) self.actions buf ofpPacketOutSize
  let actionsLen := offset - ofpPacketOutSize
  let buf ← self.appendData buf
  msgPackInto ofpPacketOutPackStr buf ofpHeaderSize
    [.int self.bufferId, .int self.inPort, .int actionsLen]

def serialize (self : OFPPacketOut) : PyResult Bytes :=
  MsgBase.serialize 4 ofptPacketOut self.xid (self.serializeBody conv)

/-! ## The layout -/

/-- The length of the actions that a message declares. -/
def declaredActionsLen (msg : Bytes) : Nat := beDecode (slice msg 16 18)

/-- The message has the serialized actions at offset 24, declares the number of bytes they occupy,
and carries exactly the packet data behind them. -/
def Layout (self : OFPPacketOut) (msg : Bytes) : Prop :=
  ∃ block total, writeAll (Action.serialize conv) self.actions [] 0 = .ok (block, total) ∧
    At msg ofpPacketOutSize block ∧ declaredActionsLen msg = block.length ∧
    msg.drop (ofpPacketOutSize + declaredActionsLen msg) = self.data.getD []

/-- The last action writes all the bytes it announces; without actions there is no data. -/
def Flush (self : OFPPacketOut) : Prop :=
  match self.actions.getLast? with
  | none => self.data.getD [] = []
  | some a => ∃ bs, a.serialize conv [] 0 = .ok (bs, bs.length)

variable {conv}

/-- The bytes of a message that was produced: 24 bytes of headers, then whatever the buffer has from
there on after the data was appended. -/
theorem serialize_ok {self : OFPPacketOut} {msg : Bytes} (h : self.serialize conv = .ok msg) :
    ∃ buf offset, writeAll (Action.serialize conv) self.actions (zeros 8) 24 = .ok (buf, offset) ∧
      declaredActionsLen msg = offset - 24 ∧
      msg.drop 24 = (buf ++ self.data.getD []).drop 24 := by
  obtain ⟨buf1, hbody, -, -, hrest⟩ := MsgBase.layout_of_serialize h
  obtain ⟨⟨buf, offset⟩, hact, hbody⟩ := bind_eq_ok.1 hbody
  obtain ⟨buf2, hdata, hbody⟩ := bind_eq_ok.1 hbody
  have hbuf2 : buf2 = buf ++ self.data.getD [] := by
    unfold appendData at hdata
    split at hdata
    · rename_i hd
      cases hdata
      simp [hd]
    · rename_i d hd
      obtain ⟨_, -, hdata⟩ := bind_eq_ok.1 hdata
      cases hdata
      simp [hd]
  obtain ⟨hfit, rfl⟩ := msgPackInto_eq_ok_iff.1 hbody
  set fixed := encode ofpPacketOutPackStr
    [.int self.bufferId, .int self.inPort, .int (offset - 24)]
  have hfixedLen : fixed.length = 16 := length_encode hfit
  refine ⟨buf, offset, hact, ?_, ?_⟩
  · have hat : At (splice buf2 8 fixed) 16 (beEncode 2 (offset - 24)) :=
      (at_splice buf2 8 fixed).right.right.left
    have hlt : offset - 24 < 256 ^ 2 := by
      simp only [ofpPacketOutPackStr, fits, Bool.and_eq_true, decide_eq_true_eq] at hfit
      exact hfit.2.2.1
    have htake := hat.take_eq
    rw [declaredActionsLen, slice, hrest (by decide)]
    exact htake ▸ beDecode_beEncode 2 _ hlt
  · have hdrop := drop_splice buf2 8 fixed
    rw [hrest (by decide), ← hbuf2]
    exact hdrop

/-- A message that is produced has the intended layout exactly when the last action fills the length
it announces or, for an empty list of actions, there is no data. -/
theorem packetOut_layout_iff (conv : Addrconv) (self : OFPPacketOut) (msg : Bytes)
    (h : self.serialize conv = .ok msg) : self.Layout conv msg ↔ self.Flush conv := by
  obtain ⟨buf, offset, hact, hlen, hdrop⟩ := serialize_ok h
  rcases eq_nil_or_concat self.actions with hnil | ⟨as, a, hcat⟩
  · rw [hnil] at hact
    cases hact
    rw [Layout, Flush, hnil, hlen]
    simp only [writeAll, ofpPacketOutSize, getLast?_nil, Nat.sub_self, Nat.add_zero, hdrop]
    constructor
    · rintro ⟨block, total, -, -, -, hd⟩
      have hl := congrArg List.length hd
      simp only [length_drop, length_append, length_zeros] at hl
      exact length_eq_zero_iff.1 (by omega)
    · intro hd
      exact ⟨[], 0, rfl, at_nil _ _, rfl, by rw [hd]; rfl⟩
  · rw [concat_eq_append] at hcat
    have hne : self.actions ≠ [] := by simp [hcat]
    rw [writeAll_behind hne (fun a => (Action.serialize_rounded conv a).behind) (by simp)] at hact
    cases hw : writeAll (Action.serialize conv) self.actions [] 0 with
    | error e =>
      rw [hw] at hact
      cases hact
    | ok p =>
      obtain ⟨block, total⟩ := p
      rw [hw] at hact
      cases hact
      obtain ⟨start, bs, len, hser, htotal, hblock⟩ :=
        writeAll_last (fun a => (Action.serialize_rounded conv a).behind) (Nat.zero_le 0)
          (hcat ▸ hw)
      have hbody : msg.drop 24 = block ++ self.data.getD [] := by
        rw [hdrop, splice_of_le (by simp)]
        simp [zeros]
      have hflush : self.Flush conv ↔ len = bs.length := by
        simp only [Flush, hcat, getLast?_append, getLast?_singleton, Option.some_or, hser]
        constructor
        · rintro ⟨bs', hbs'⟩
          cases hbs'
          rfl
        · rintro rfl
          exact ⟨bs, rfl⟩
      rw [Layout, hflush, hlen, Nat.add_sub_cancel_left]
      constructor
      · rintro ⟨block', total', hw', -, hl, -⟩
        cases hw.symm.trans hw'
        omega
      · intro hl
        refine ⟨block, total, hw, ?_, by omega, ?_⟩
        · rw [At, ofpPacketOutSize, hbody]
          exact prefix_append _ _
        · rw [ofpPacketOutSize, ← drop_drop, hbody, drop_left' (by omega)]

/-- One output action and three bytes of data: the data stands behind the action. -/
theorem packetOut_layout_output :
    ∃ msg, (OFPPacketOut.mk 0xffffffff 1 [.output 2 0xffe5] (some [7, 8, 9]) none).serialize
        OFPMatch.latin1Addrconv = .ok msg ∧
      Layout OFPMatch.latin1Addrconv
        (OFPPacketOut.mk 0xffffffff 1 [.output 2 0xffe5] (some [7, 8, 9]) none) msg :=
  ⟨_, rfl, (packetOut_layout_iff OFPMatch.latin1Addrconv _ _ rfl).2 ⟨_, rfl⟩⟩

/-- Without actions the data is overwritten by the fixed part, which is packed over it. -/
theorem packetOut_data_overwritten :
    ∃ msg, (OFPPacketOut.mk 0xffffffff 1 [] (some [0xaa]) none).serialize
        OFPMatch.latin1Addrconv = .ok msg ∧
      ¬Layout OFPMatch.latin1Addrconv
        (OFPPacketOut.mk 0xffffffff 1 [] (some [0xaa]) none) msg := by
  refine ⟨_, rfl, ?_⟩
  rintro ⟨block, total, -, -, -, hd⟩
  exact absurd hd (by decide)

end OFPPacketOut

end BebaCtrl
