import BebaCtrl.Beba.OvsDatapath

/-!
# What the wrapper sends

Over every run of configuration messages and flow-mods, calls that raise included, the messages that
reach the switch are of three kinds: the control and default entries of state tables, and translated
flow-mods. A translated flow-mod is for an odd table and goes to even tables only, those of stages
in use; every stage in use has got its control entry (`Wrapped`).

A configuration message for a stage that fits the switch never raises, and both entries of the stage
are with the switch at the end of the run (`mem_sendAll_of_configured`).
-/

namespace BebaCtrl

open Struct List

namespace OVSDatapath

/-! ## The entries of state tables -/

def reg1Match (v : Nat) : OFPMatch := ⟨ofpmtOxm, none, [], [(reg1, .int v, none)]⟩

def controlFlowMod (t : Nat) : OFPFlowMod where
  tableId := getStateTableId t
  priority := 10
  ofpMatch := reg1Match 0
  instructions := [.actions ofpitApplyActions [.setField reg1 (.int 1),
    .resubmitTable ofppInPort10 (getStateTableId t),
    .resubmitTable ofppInPort10 (getFlowTableId t)]]

def returnDefaultFlowMod (t : Nat) : OFPFlowMod where
  tableId := getStateTableId t
  priority := 10
  ofpMatch := reg1Match 1
  instructions := [.actions ofpitApplyActions [.setField reg0 (.int 0)]]

theorem oxmFromUser_reg1 (conv : Addrconv) (v : Nat) :
    oxmFromUser conv reg1 (.int v, none) = .ok (.basic 129, beEncode 4 v, none) := by
  rfl

variable {v : Nat}

theorem ofKwargs_reg1 (conv : Addrconv) (hv : v < 256 ^ 4) :
    OFPMatch.ofKwargs conv [(reg1, .int v, none)] = .ok (reg1Match v) := by
  have hnum : getFieldInfoByNumber (.basic 129) = .ok (reg1, .int 4) := by decide +kernel
  have hto : oxmToUser conv (.basic 129) (beEncode 4 v) none = .ok (reg1, .int v, none) := by
    have hval : beDecode ((beEncode 4 v).take 4) = v := by
      rw [take_of_length_le (by simp), beDecode_beEncode 4 v hv]
    rw [oxmToUser, hnum]
    simp [TypeDesc.size, TypeDesc.toUser, hval]
  simp [OFPMatch.ofKwargs, reg1Match, oxmNormalizeUser, oxmFromUser_reg1, hto, applyMask]

theorem sendControlFlow_eq (conv : Addrconv) (t : Nat) :
    sendControlFlow conv t = superSendMsg conv (.flowMod (controlFlowMod t)) := by
  rw [sendControlFlow, ofKwargs_reg1 conv (by decide)]
  rfl

theorem sendReturnDefault_eq (conv : Addrconv) (t : Nat) :
    sendReturnDefault conv t = superSendMsg conv (.flowMod (returnDefaultFlowMod t)) := by
  rw [sendReturnDefault, ofKwargs_reg1 conv (by decide)]
  rfl

/-- Setting a register takes sixteen bytes. -/
theorem aligned_setField (conv : Addrconv) {name : OxmName}
    (h : name = reg1 ∧ v = 1 ∨ name = reg0 ∧ v = 0) :
    ∃ bs : Bytes, bs.length = 16 ∧ Aligned ((Action.setField name (.int v)).serialize conv) bs := by
  obtain ⟨bs, he, hlen⟩ : ∃ bs,
      (Action.setField name (.int v)).serialize conv [] 0 = .ok (bs, 16) ∧ bs.length = 16 := by
    rcases h with ⟨rfl, rfl⟩ | ⟨rfl, rfl⟩
    · exact ⟨_, rfl, rfl⟩
    · exact ⟨_, rfl, rfl⟩
  exact ⟨bs, hlen, (Action.serialize_rounded conv _).aligned he hlen⟩

variable {conv : Addrconv}

/-- A flow-mod with a match on the mark can be written, if its actions take sixteen bytes each. -/
theorem serialize_reg1FlowMod {tableId xid : Nat} {acts : List Action}
    (ht : tableId < 256) (hxid : xid < 256 ^ 4) (hlen : acts.length ≤ 3)
    (hacts : ∀ a ∈ acts, ∃ bs : Bytes, bs.length = 16 ∧ Aligned (a.serialize conv) bs) :
    ∃ bs, (Message.flowMod
      { tableId := tableId
        priority := 10
        ofpMatch := reg1Match v
        instructions := [.actions ofpitApplyActions acts] }).serialize conv xid = .ok bs := by
  choose! enc hsize henc using hacts
  set block := (acts.map enc).flatten with hblock
  have hlens : acts.map (List.length ∘ enc) = List.replicate acts.length 16 :=
    eq_replicate_iff.2 ⟨by simp, by simpa using hsize⟩
  have hblockLen : block.length = 16 * acts.length := by
    rw [hblock, length_flatten, map_map, hlens, sum_replicate_nat, Nat.mul_comm]
  have hhdr : fits ofpInstructionActionsPackStr
      [.int ofpitApplyActions, .int (8 + block.length)] = true := by
    simp [fits, ofpInstructionActionsPackStr, ofpitApplyActions]
    omega
  have hinst := Instruction.actionsSerialize_aligned henc hhdr
  set ts : List OxmTriple := [(.basic 129, beEncode 4 v, none)] with hts
  have hfields : (reg1Match v).fields2.mapM (fun kuv => oxmFromUser conv kuv.1 kuv.2) = .ok ts := by
    rfl
  have hgood : OFPMatch.Good (.basic 129, beEncode 4 v, none) := by
    refine ⟨OxmField.niciraExtended1 "reg1" 1 (.int 4), by decide +kernel, rfl, ?_⟩
    simp [OxmField.Sized, OxmField.niciraExtended1, OxmField.oxmClass, TypeDesc.size]
  have hwireLen : OFPMatch.wireLen ts ≤ 46 := by
    have := OFPMatch.length_tlvOf_le hgood
    simp only [OFPMatch.wireLen, hts, map_cons, map_nil, flatten_cons, flatten_nil, append_nil]
    omega
  have hwire := roundUp_lt (OFPMatch.wireLen ts) (show 0 < 8 by decide)
  rw [← OFPMatch.length_wire] at hwire
  obtain ⟨buf, hbody, hbuf⟩ := OFPFlowMod.serializeBody_ok
    { tableId := tableId
      priority := 10
      ofpMatch := reg1Match v
      instructions := [.actions ofpitApplyActions acts] }
    (fun _ => encode ofpInstructionActionsPackStr
      [.int ofpitApplyActions, .int (8 + block.length)] ++ block)
    (by simpa [fits, ofpFlowModPackStr0, ofpfcAdd, ofpNoBuffer] using ht) hfields
    (by simpa [hts] using hgood) (by omega) (forall_mem_singleton.2 hinst)
  have hbufLen : buf.length = 48 + (OFPMatch.wire ts).length + (8 + block.length) := by
    rw [hbuf]
    simp [length_encode hhdr]
    rfl
  refine MsgBase.serialize_of_body hbody (by unfold ofpHeaderSize; omega) ?_
  simp [fits, ofpHeaderPackStr, ofptFlowMod]
  omega

variable {t : Nat}

theorem serialize_control {xid : Nat} (ht : t < 128) (hxid : xid < 256 ^ 4) :
    ∃ bs, (Message.flowMod (controlFlowMod t)).serialize conv xid = .ok bs := by
  refine serialize_reg1FlowMod (by unfold getStateTableId; omega) hxid (by simp) fun a ha => ?_
  simp only [mem_cons, not_mem_nil, or_false] at ha
  rcases ha with rfl | rfl | rfl
  · exact aligned_setField conv (.inl ⟨rfl, rfl⟩)
  · exact Action.aligned_resubmitTable conv (by decide) (by unfold getStateTableId; omega)
  · exact Action.aligned_resubmitTable conv (by decide) (by unfold getFlowTableId; omega)

theorem serialize_returnDefault {xid : Nat} (ht : t < 128) (hxid : xid < 256 ^ 4) :
    ∃ bs, (Message.flowMod (returnDefaultFlowMod t)).serialize conv xid = .ok bs := by
  refine serialize_reg1FlowMod (by unfold getStateTableId; omega) hxid (by simp) fun a ha => ?_
  cases mem_singleton.1 ha
  exact aligned_setField conv (.inr ⟨rfl, rfl⟩)

/-! ## Actions and instructions -/

/-- Filtering an action changes no attribute; what it returns is the action or nothing, since a
set-state action is never decoded. -/
theorem filterAction_cases (act : Action) (dp : OVSDatapath) :
    (∃ e, filterAction act dp = (.error e, dp)) ∨ filterAction act dp = (.ok [act], dp) ∨
      filterAction act dp = (.ok [], dp) := by
  cases act with
  | experimenterUnknown experimenter data =>
    by_cases hexp : experimenter = bebaExperimenterId
    · simp only [filterAction, if_pos hexp]
      cases hdata : decodeSetState data with
      | error e => exact .inl ⟨e, rfl⟩
      | ok r =>
        cases r with
        | none => exact .inr (.inr rfl)
        | some r => exact absurd hdata (decodeSetState_ne_some data r)
    · simp only [filterAction, if_neg hexp]
      exact .inr (.inl rfl)
  | _ => exact .inr (.inl rfl)

theorem filterActions_cases (acts : List Action) (dp : OVSDatapath) :
    (∃ e, filterActions acts dp = (.error e, dp)) ∨
      ∃ out, filterActions acts dp = (.ok out, dp) ∧ out ⊆ acts := by
  induction acts with
  | nil => exact .inr ⟨[], rfl, List.Subset.refl _⟩
  | cons act acts ih =>
    rcases filterAction_cases act dp with ⟨e, h⟩ | h | h <;>
      rcases ih with ⟨e', hacts⟩ | ⟨out, hacts, hsub⟩ <;>
      simp only [filterActions, bind, h, hacts, pure]
    · exact .inl ⟨e, rfl⟩
    · exact .inl ⟨e, rfl⟩
    · exact .inl ⟨e', rfl⟩
    · exact .inr ⟨act :: out, rfl, cons_subset_cons act hsub⟩
    · exact .inl ⟨e', rfl⟩
    · exact .inr ⟨out, rfl, subset_cons_of_subset act hsub⟩

/-! ## The invariant -/

/-- A message of the application: the configuration of a stage, or a flow-mod. -/
inductive AppMsg : Message → Prop where
  | config {stateful tableId : Nat} {m : OFPExperimenter}
    (h : expMsgConfigureStatefulTable stateful tableId = .ok m) : AppMsg (.experimenter m)
  | flowMod (fm : OFPFlowMod) : AppMsg (.flowMod fm)

/-- The messages configure stage `t`, which fits the tables of the switch. -/
def Configured (msgs : List Message) (t : Nat) : Prop :=
  t < 128 ∧ ∃ stateful m, expMsgConfigureStatefulTable stateful t = .ok m ∧ .experimenter m ∈ msgs

/-- A flow-mod among the messages goes to stage `t`. -/
def Targeted (msgs : List Message) (t : Nat) : Prop :=
  ∃ fm, .flowMod fm ∈ msgs ∧ .gotoTable t ∈ fm.instructions

/-- An instruction and its translation while the stages `inUse` are in use. -/
inductive TransInstr (inUse : Finset Nat) : Instruction → Instruction → Prop where
  | actions {type : Nat} {acts acts' : List Action} (h : acts' ⊆ acts) :
    TransInstr inUse (.actions type acts) (.actions type acts')
  | gotoTable {t : Nat} (h : t ∈ inUse) :
    TransInstr inUse (.gotoTable t) (.gotoTable (getStateTableId t))
  | writeMetadata (metadata mask : Nat) :
    TransInstr inUse (.writeMetadata metadata mask) (.writeMetadata metadata mask)
  | meter (meterId : Nat) : TransInstr inUse (.meter meterId) (.meter meterId)

/-- A flow-mod and its translation. -/
structure Translated (inUse : Finset Nat) (fm fm' : OFPFlowMod) : Prop where
  tableId : fm'.tableId = getFlowTableId fm.tableId
  command : fm'.command = fm.command
  instructions : List.Forall₂ (TransInstr inUse) fm.instructions fm'.instructions

/-- The messages that reach the switch when the application sends `msgs`. -/
inductive StageMsg (msgs : List Message) (inUse : Finset Nat) : Message → Prop where
  | control {t : Nat} (h : Configured msgs t ∨ Targeted msgs t) :
    StageMsg msgs inUse (.flowMod (controlFlowMod t))
  | default {t : Nat} (h : Configured msgs t) :
    StageMsg msgs inUse (.flowMod (returnDefaultFlowMod t))
  | flow {fm fm' : OFPFlowMod} (h : .flowMod fm ∈ msgs) (htr : Translated inUse fm fm') :
    StageMsg msgs inUse (.flowMod fm')

/-- A datapath through which messages among `msgs` were sent, and `kept` are with the switch. -/
structure Wrapped (msgs kept : List Message) (dp : OVSDatapath) : Prop where
  sent : ∀ msg ∈ dp.sent, StageMsg msgs dp.statefulStagesInUse msg
  control : ∀ t ∈ dp.statefulStagesInUse, t < 128 ∧ .flowMod (controlFlowMod t) ∈ dp.sent
  kept : kept ⊆ dp.sent

variable {X Y : Finset Nat}

theorem TransInstr.mono (h : X ⊆ Y) {i i' : Instruction}
    (hi : TransInstr X i i') : TransInstr Y i i' := by
  cases hi with
  | actions hsub => exact .actions hsub
  | gotoTable ht => exact .gotoTable (h ht)
  | writeMetadata m k => exact .writeMetadata m k
  | meter m => exact .meter m

theorem StageMsg.mono {msgs : List Message} (h : X ⊆ Y) {msg : Message}
    (hm : StageMsg msgs X msg) : StageMsg msgs Y msg := by
  cases hm with
  | control hmsgs => exact .control hmsgs
  | default hmsgs => exact .default hmsgs
  | flow hmsgs htr =>
    exact .flow hmsgs ⟨htr.tableId, htr.command, htr.instructions.imp fun _ _ => .mono h⟩

variable {is is' : List Instruction}

theorem TransInstr.actions_subset
    (h : List.Forall₂ (TransInstr X) is is') : actionsOf is' ⊆ actionsOf is := by
  induction h with
  | nil => exact List.Subset.refl _
  | @cons i i' is is' hi _ ih =>
    have hhead : actionsOf [i'] ⊆ actionsOf [i] := by
      cases hi with
      | actions hsub => simpa [actionsOf] using hsub
      | _ => exact List.Subset.refl _
    have hcons (j : Instruction) (js : List Instruction) :
        actionsOf (j :: js) = actionsOf [j] ++ actionsOf js := by simp [actionsOf]
    rw [hcons, hcons i]
    exact append_subset.2 ⟨subset_append_of_subset_left _ hhead,
      subset_append_of_subset_right _ ih⟩

theorem TransInstr.goto
    (h : List.Forall₂ (TransInstr X) is is') {g : Nat} (hg : .gotoTable g ∈ is') :
    ∃ t ∈ X, g = 2 * t := by
  induction h with
  | nil => cases hg
  | cons hi _ ih =>
    rcases mem_cons.1 hg with rfl | hg
    · cases hi with
      | gotoTable ht => exact ⟨_, ht, rfl⟩
    · exact ih hg

/-! ## Each call keeps it -/

section Keeps

variable {conv : Addrconv} {msgs kept : List Message} {X : Finset Nat} {M : List Message}

/-- The invariant, with stages known to be in use and messages known to be sent. -/
structure WrappedWith (msgs kept : List Message) (X : Finset Nat) (M : List Message)
    (dp : OVSDatapath) : Prop where
  wrapped : Wrapped msgs kept dp
  inUse : X ⊆ dp.statefulStagesInUse
  sent : M ⊆ dp.sent

theorem Wrapped.send {dp : OVSDatapath} (h : Wrapped msgs kept dp) {msg : Message}
    (hmsg : StageMsg msgs dp.statefulStagesInUse msg) :
    Wrapped msgs kept { dp with sent := dp.sent ++ [msg] } := by
  refine ⟨fun m hm => ?_, fun t ht => ?_, subset_append_of_subset_left _ h.kept⟩
  · rcases mem_append.1 hm with hm | hm
    · exact h.sent m hm
    · cases mem_singleton.1 hm
      exact hmsg
  · obtain ⟨hlt, hmem⟩ := h.control t ht
    exact ⟨hlt, mem_append_left _ hmem⟩

theorem triple_xidOf (msg : Message) :
    PyM.Triple (WrappedWith msgs kept X M) (xidOf msg) (fun _ => WrappedWith msgs kept X M)
      (Wrapped msgs kept) := by
  unfold xidOf
  cases msg.xid with
  | some xid => exact .pure fun _ h => h
  | none =>
    refine .bind (.modify fun dp h => ?_) fun _ => .bind (.get fun _ h => h) fun dp =>
      .pure fun _ h => h
    exact ⟨⟨h.wrapped.sent, h.wrapped.control, h.wrapped.kept⟩, h.inUse, h.sent⟩

variable {fm : OFPFlowMod}

/-- Sending a message of the three kinds; one that was sent has a table id of one byte. -/
theorem triple_superSendMsg (hmsg : fm.tableId < 256 → StageMsg msgs X (.flowMod fm)) :
    PyM.Triple (WrappedWith msgs kept X M) (superSendMsg conv (.flowMod fm))
      (fun _ dp => WrappedWith msgs kept X (.flowMod fm :: M) dp ∧ fm.tableId < 256)
      (Wrapped msgs kept) := by
  refine .bind (triple_xidOf _) fun xid => ?_
  refine PyM.Triple.bind (Q := fun _ dp => WrappedWith msgs kept X M dp ∧ fm.tableId < 256)
    (.lift (fun bs dp hser h => ⟨h, OFPFlowMod.tableId_lt hser⟩) fun _ h => h.wrapped) fun _ => ?_
  refine .modify fun dp h => ⟨⟨h.1.wrapped.send ((hmsg h.2).mono h.1.inUse), h.1.inUse, ?_⟩, h.2⟩
  exact cons_subset.2 ⟨by simp, subset_append_of_subset_left _ h.1.sent⟩

variable {t : Nat}

/-- A stage that has got its control entry may be put in use. -/
theorem triple_addStage (ht : t < 128) (hM : .flowMod (controlFlowMod t) ∈ M) :
    PyM.Triple (WrappedWith msgs kept X M) (addStage t)
      (fun _ dp => WrappedWith msgs kept X M dp ∧ t ∈ dp.statefulStagesInUse)
      (Wrapped msgs kept) := by
  refine .modify fun dp h => ?_
  have hgrow := Finset.subset_insert t dp.statefulStagesInUse
  refine ⟨⟨⟨fun m hm => (h.wrapped.sent m hm).mono hgrow, fun t' ht' => ?_, h.wrapped.kept⟩,
    h.inUse.trans hgrow, h.sent⟩, Finset.mem_insert_self _ _⟩
  rcases Finset.mem_insert.1 ht' with rfl | ht'
  · exact ⟨ht, h.sent hM⟩
  · exact h.wrapped.control t' ht'

/-- A state table with an id of one byte belongs to a stage that fits the switch. -/
theorem stage_lt (h : (controlFlowMod t).tableId < 256) : t < 128 := by
  have : 2 * t < 256 := h
  omega

theorem triple_ensureStage (ht : Targeted msgs t) :
    PyM.Triple (WrappedWith msgs kept X M) (ensureStage conv t)
      (fun _ dp => WrappedWith msgs kept X M dp ∧ t ∈ dp.statefulStagesInUse)
      (Wrapped msgs kept) := by
  refine PyM.Triple.bind (Q := fun dp₀ dp => WrappedWith msgs kept X M dp ∧ dp = dp₀)
    (.get fun dp h => ⟨h, rfl⟩) fun dp₀ => ?_
  split
  · rw [sendControlFlow_eq]
    refine PyM.Triple.bind ((triple_superSendMsg fun _ => .control (.inr ht)).consequence
      (fun _ h => h.1) (fun _ _ h => h) fun _ h => h) fun _ => .of_fact fun hlt => ?_
    refine (triple_addStage (stage_lt hlt) mem_cons_self).consequence (fun _ h => h)
      (fun _ dp h => ?_) fun _ h => h
    exact ⟨⟨h.1.wrapped, h.1.inUse, (cons_subset.1 h.1.sent).2⟩, h.2⟩
  · rename_i hin
    refine .pure fun dp h => ⟨h.1, ?_⟩
    rw [h.2]
    exact not_not.1 hin

theorem triple_translateInstruction (i : Instruction)
    (hi : ∀ t, i = .gotoTable t → Targeted msgs t) :
    PyM.Triple (WrappedWith msgs kept X M) (translateInstruction conv i)
      (fun i' dp => WrappedWith msgs kept X M dp ∧ TransInstr dp.statefulStagesInUse i i')
      (Wrapped msgs kept) := by
  cases i with
  | actions type acts =>
    by_cases htype : type = ofpitWriteActions ∨ type = ofpitApplyActions
    · intro dp h
      rw [translateInstruction, if_pos htype]
      rcases filterActions_cases acts dp with ⟨e, hacts⟩ | ⟨out, hacts, hsub⟩
      · simpa only [bind, hacts] using h.wrapped
      · simpa only [bind, hacts, pure] using ⟨h, .actions hsub⟩
    · rw [translateInstruction, if_neg htype]
      exact .pure fun dp h => ⟨h, .actions (List.Subset.refl _)⟩
  | gotoTable t =>
    exact .bind (triple_ensureStage (hi t rfl)) fun _ => .pure fun dp h => ⟨h.1, .gotoTable h.2⟩
  | writeMetadata m k => exact .pure fun dp h => ⟨h, .writeMetadata m k⟩
  | meter m => exact .pure fun dp h => ⟨h, .meter m⟩

theorem triple_translateInstructions (is : List Instruction)
    (his : ∀ t, .gotoTable t ∈ is → Targeted msgs t) :
    PyM.Triple (WrappedWith msgs kept X M) (translateInstructions conv is)
      (fun is' dp => WrappedWith msgs kept X M dp ∧
        List.Forall₂ (TransInstr dp.statefulStagesInUse) is is') (Wrapped msgs kept) := by
  induction is generalizing X with
  | nil => exact .pure fun dp h => ⟨h, .nil⟩
  | cons i is ih =>
    have hi : ∀ t, i = .gotoTable t → Targeted msgs t := fun t ht => his t (by simp [ht])
    have ih {Y : Finset Nat} := @ih Y fun t ht => his t (mem_cons_of_mem i ht)
    refine .bind (triple_translateInstruction i hi) fun i' => ?_
    refine PyM.Triple.bind (Q := fun is' dp => WrappedWith msgs kept X M dp ∧
      TransInstr dp.statefulStagesInUse i i' ∧
      List.Forall₂ (TransInstr dp.statefulStagesInUse) is is') ?_ fun is' =>
        .pure fun dp h => ⟨h.1, .cons h.2.1 h.2.2⟩
    -- what is in use after the first instruction stays in use
    intro dp ⟨h, htr⟩
    exact ih.consequence (fun _ h => h)
      (fun is' dp' h' => ⟨⟨h'.1.wrapped, h.inUse.trans h'.1.inUse, h'.1.sent⟩, htr.mono h'.1.inUse,
        h'.2⟩) (fun _ h => h) dp ⟨h.wrapped, Finset.Subset.refl _, h.sent⟩

theorem keeps_flowMod (hfm : .flowMod fm ∈ msgs) :
    PyM.Keeps (Wrapped msgs kept) (sendMsg conv (.flowMod fm)) := by
  refine PyM.Triple.bind (Q := fun fm' dp => Wrapped msgs kept dp ∧
    Translated dp.statefulStagesInUse fm fm') ?_ fun fm' => ?_
  · refine PyM.Triple.bind ((triple_translateInstructions (X := ∅) (M := []) _
      fun t ht => ⟨fm, hfm, ht⟩).consequence (fun dp h => ⟨h, by simp, by simp⟩) (fun _ _ h => h)
        fun _ h => h) fun is' => ?_
    exact .pure fun dp h => ⟨h.1.wrapped, rfl, rfl, h.2⟩
  · intro dp ⟨hw, htr⟩
    exact (triple_superSendMsg (M := []) fun _ => .flow hfm htr).consequence (fun _ h => h)
      (fun _ _ h => h.1.wrapped) (fun _ h => h) dp ⟨hw, Finset.Subset.refl _, by simp⟩

variable {stateful : Nat} {m : OFPExperimenter}

/-- What a configuration message does. -/
theorem sendMsg_config (conv : Addrconv) (h : expMsgConfigureStatefulTable stateful t = .ok m) :
    sendMsg conv (.experimenter m) = (do
      superSendMsg conv (.flowMod (controlFlowMod t))
      superSendMsg conv (.flowMod (returnDefaultFlowMod t))
      addStage t) := by
  obtain ⟨rest, hrest, hsend⟩ := sendMsg_stateMod conv h
  obtain ⟨hfit, rfl⟩ := pack_ok_iff.1 hrest
  have hvals : unpack ofpExpStateModStatefulTableConfigPackStr
      (slice (encode ofpExpStateModPackStr [.int ofpscExpStatefulTableConfig] ++
        encode ofpExpStateModStatefulTableConfigPackStr [.int t, .int stateful]) 2 4) =
      .ok [.int t, .int stateful] := by
    refine unpack_slice
      (exact_of_fits_int (show fits _ ([t, stateful].map .int) = true from hfit)) ?_
    exact prefix_rfl
  rw [hsend]
  show statefulTableConfig conv _ = _
  rw [statefulTableConfig, hvals, ← sendControlFlow_eq, ← sendReturnDefault_eq]
  rfl

theorem keeps_config
    (h : expMsgConfigureStatefulTable stateful t = .ok m) (hm : .experimenter m ∈ msgs) :
    PyM.Keeps (Wrapped msgs kept) (sendMsg conv (.experimenter m)) := by
  have hconf (ht : t < 128) : Configured msgs t := ⟨ht, stateful, m, h, hm⟩
  rw [sendMsg_config conv h]
  refine PyM.Triple.bind ((triple_superSendMsg (X := ∅) (M := []) fun hlt =>
    .control (.inl (hconf (stage_lt hlt)))).consequence (fun dp h => ⟨h, by simp, by simp⟩)
      (fun _ _ h => h) fun _ h => h) fun _ => .of_fact fun hlt => ?_
  refine .bind (triple_superSendMsg fun _ => .default (hconf (stage_lt hlt))) fun _ =>
    .of_fact fun _ => ?_
  exact (triple_addStage (stage_lt hlt) (by simp)).consequence (fun _ h => h)
    (fun _ _ h => h.1.wrapped) fun _ h => h

end Keeps

/-! ## Runs -/

/-- The datapath after the application has sent messages, whether or not the calls raised. -/
def sendAll (conv : Addrconv) (msgs : List Message) (dp : OVSDatapath) : OVSDatapath :=
  msgs.foldl (fun dp msg => (sendMsg conv msg dp).2) dp

variable {conv : Addrconv} {msgs kept : List Message}

theorem keeps_sendMsg {msg : Message} (h : AppMsg msg) (hmem : msg ∈ msgs) :
    PyM.Keeps (Wrapped msgs kept) (sendMsg conv msg) := by
  cases h with
  | config h => exact keeps_config h hmem
  | flowMod fm => exact keeps_flowMod hmem

theorem Wrapped.sendAll {run : List Message} (h : ∀ msg ∈ run, AppMsg msg) (hsub : run ⊆ msgs)
    {dp : OVSDatapath} (hdp : Wrapped msgs kept dp) :
    Wrapped msgs kept (sendAll conv run dp) := by
  induction run generalizing dp with
  | nil => exact hdp
  | cons msg run ih =>
    obtain ⟨hmsg, hrun⟩ := cons_subset.1 hsub
    have hstep := PyM.Keeps.final (@keeps_sendMsg conv _ _ _ (h msg mem_cons_self) hmsg) hdp
    exact ih (fun m hm => h m (mem_cons_of_mem msg hm)) hrun hstep

theorem wrapped_beba2OVSWrapper (msgs : List Message) (xid : Nat) :
    Wrapped msgs [] (beba2OVSWrapper xid) := by
  refine ⟨fun _ hm => ?_, fun _ ht => ?_, by simp⟩
  · cases hm
  · exact absurd ht (Finset.notMem_empty _)

/-! ## Configured stages -/

/-- A message without transaction id that can be written under every id is sent. -/
theorem superSendMsg_sends (msg : Message) (hnone : msg.xid = none)
    (hser : ∀ xid < 256 ^ 4, ∃ bs, msg.serialize conv xid = .ok bs) (dp : OVSDatapath) :
    ∃ xid, superSendMsg conv msg dp =
      (.ok (), { dp with xid := xid, sent := dp.sent ++ [msg] }) := by
  have hxid : (dp.xid + 1) &&& maxXid < 256 ^ 4 :=
    Nat.lt_of_le_of_lt Nat.and_le_right (by decide)
  obtain ⟨bs, hbs⟩ := hser _ hxid
  refine ⟨(dp.xid + 1) &&& maxXid, ?_⟩
  have hnew : xidOf msg dp = (.ok ((dp.xid + 1) &&& maxXid),
      { dp with xid := (dp.xid + 1) &&& maxXid }) := by
    rw [xidOf, hnone]
    rfl
  refine PyM.bind_eq_ok.2 ⟨_, _, hnew, ?_⟩
  exact PyM.bind_eq_ok.2 ⟨bs, _, PyM.lift_eq_ok.2 ⟨hbs, rfl⟩, rfl⟩

/-- Configuring a stage that fits the switch sends its control and its default entry. -/
theorem sendMsg_config_sends (conv : Addrconv) {stateful : Nat} {m : OFPExperimenter}
    (h : expMsgConfigureStatefulTable stateful t = .ok m) (ht : t < 128) (dp : OVSDatapath) :
    ∃ dp', sendMsg conv (.experimenter m) dp = (.ok (), dp') ∧ dp'.sent =
      dp.sent ++ [.flowMod (controlFlowMod t)] ++ [.flowMod (returnDefaultFlowMod t)] := by
  obtain ⟨xid₁, h₁⟩ := superSendMsg_sends (.flowMod (controlFlowMod t)) rfl
    (fun xid hxid => @serialize_control conv t xid ht hxid) dp
  obtain ⟨xid₂, h₂⟩ := superSendMsg_sends (.flowMod (returnDefaultFlowMod t)) rfl
    (fun xid hxid => @serialize_returnDefault conv t xid ht hxid)
      { dp with xid := xid₁, sent := dp.sent ++ [.flowMod (controlFlowMod t)] }
  rw [sendMsg_config conv h]
  exact ⟨_, PyM.bind_eq_ok.2 ⟨_, _, h₁, PyM.bind_eq_ok.2 ⟨_, _, h₂, rfl⟩⟩, rfl⟩

/-- The entries of a configured stage are with the switch at the end of the run. -/
theorem mem_sendAll_of_configured (xid : Nat) (h : ∀ msg ∈ msgs, AppMsg msg)
    (ht : Configured msgs t) :
    .flowMod (controlFlowMod t) ∈ (sendAll conv msgs (beba2OVSWrapper xid)).sent ∧
      .flowMod (returnDefaultFlowMod t) ∈ (sendAll conv msgs (beba2OVSWrapper xid)).sent := by
  obtain ⟨hlt, stateful, m, hm, hmem⟩ := ht
  obtain ⟨before, after, rfl⟩ := append_of_mem hmem
  set msgs := before ++ .experimenter m :: after with hmsgs
  have hbefore : Wrapped msgs [] (sendAll conv before (beba2OVSWrapper xid)) :=
    (wrapped_beba2OVSWrapper msgs xid).sendAll (fun msg hmsg => h msg (by simp [hmsgs, hmsg]))
      (by simp [hmsgs])
  obtain ⟨dp, hsend, hsent⟩ :=
    sendMsg_config_sends conv hm hlt (sendAll conv before (beba2OVSWrapper xid))
  have hdp : Wrapped msgs [] dp := by
    have hfinal := PyM.Keeps.final (@keeps_config conv msgs [] _ _ _ hm hmem) hbefore
    rwa [hsend] at hfinal
  -- once sent, the two entries stay with the switch
  have hkept : Wrapped msgs [.flowMod (controlFlowMod t), .flowMod (returnDefaultFlowMod t)] dp :=
    ⟨hdp.sent, hdp.control, by simp [hsent]⟩
  have hafter := @Wrapped.sendAll conv _ _ after (fun msg hmsg => h msg (by simp [hmsgs, hmsg]))
    (by simp [hmsgs]) _ hkept
  have hrun : sendAll conv msgs (beba2OVSWrapper xid) = sendAll conv after dp := by
    simp only [sendAll, hmsgs, foldl_append, foldl_cons]
    exact congrArg (after.foldl _ ·.2) hsend
  rw [hrun]
  exact ⟨hafter.kept (by simp), hafter.kept (by simp)⟩

variable {dp : OVSDatapath} {t t' : Nat}

theorem returnDefaultFlowMod_ne_control : returnDefaultFlowMod t ≠ controlFlowMod t := by
  intro h
  have hmatch : reg1Match 1 = reg1Match 0 := congrArg OFPFlowMod.ofpMatch h
  simp [reg1Match] at hmatch

theorem stage_inj (h : getStateTableId t = getStateTableId t') : t = t' :=
  Nat.eq_of_mul_eq_mul_left (by decide) h

/-- The messages for a state table are those of its stage. -/
theorem StageMsg.of_stateTable {inUse : Finset Nat} {fm : OFPFlowMod}
    (h : StageMsg msgs inUse (.flowMod fm)) (ht : fm.tableId = getStateTableId t) :
    fm = controlFlowMod t ∧ (Configured msgs t ∨ Targeted msgs t) ∨
      fm = returnDefaultFlowMod t ∧ Configured msgs t := by
  cases h with
  | control h =>
    cases stage_inj ht
    exact .inl ⟨rfl, h⟩
  | default h =>
    cases stage_inj ht
    exact .inr ⟨rfl, h⟩
  | flow _ htr =>
    have htable := htr.tableId
    unfold getStateTableId at ht
    unfold getFlowTableId at htable
    omega

theorem Wrapped.configured (hw : Wrapped msgs kept dp)
    (h : .flowMod (returnDefaultFlowMod t) ∈ dp.sent) : Configured msgs t := by
  rcases (hw.sent _ h).of_stateTable rfl with ⟨heq, -⟩ | ⟨-, h⟩
  · exact absurd heq returnDefaultFlowMod_ne_control
  · exact h

theorem Wrapped.configured_or_targeted (hw : Wrapped msgs kept dp)
    (h : .flowMod (controlFlowMod t) ∈ dp.sent) : Configured msgs t ∨ Targeted msgs t := by
  rcases (hw.sent _ h).of_stateTable rfl with ⟨-, h⟩ | ⟨-, h⟩
  · exact h
  · exact .inl h

end OVSDatapath

end BebaCtrl
