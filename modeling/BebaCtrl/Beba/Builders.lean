import BebaCtrl.Ofproto.Requests

/-!
# Beba actions and messages

The builders of `beba_v1_0_parser`. A Beba action is an unknown experimenter action, a Beba message
an experimenter message; both carry their payload packed.

`expMsgKeyExtract` also keeps the fields of every lookup-scope extractor in `lookup_scope`, by which
state statistics are decoded later. `lookupScope_coherent_iff` says for which calls the scope on the
controller agrees with what the messages tell the switch.
-/

namespace BebaCtrl

open Struct List Py

/-! ## Constants of `beba_v1_0` -/

def ofpExpStateModPackStr : Fmt := [B, x 1]
def ofpExpStateModStatefulTableConfigPackStr : Fmt := [B, B]
def ofpExpStateModExtractorPackStr : Fmt := [B, x 3, B, x 3, I]
def ofpExpStateModSetFlowStatePackStr : Fmt := [B, x 3, I, I, I, I, I, I, I]
def ofpExpStateModDelFlowStatePackStr : Fmt := [B, x 3, I]
def ofpExpStateModSetGlobalStatePackStr : Fmt := [I, I]
def ofpExpActionSetStatePackStr : Fmt := [I, x 4, I, I, B, x 3, I, I, I, I, B, x 3]
def ofpExpActionSetGlobalStatePackStr : Fmt := [I, x 4, I, I]
def ofpExpActionIncStatePackStr : Fmt := [I, x 4, B, x 7]
def ofpExpPkttmpModPackStr : Fmt := [B, x 1]
def ofpExpPkttmpModAddPkttmpPackStr : Fmt := [I, x 4]
def ofpExpPkttmpModDelPkttmpPackStr : Fmt := [I, x 4]
def ofpStateStatsRequest0PackStr : Fmt := [B, B, x 2, I]

def maxFieldCount : Nat := 6
def maxKeyLen : Nat := 48

def ofptExpStateMod : Nat := 0
def ofptExpPkttmpMod : Nat := 1

def ofpscExpStatefulTableConfig : Nat := 0
def ofpscExpSetLExtractor : Nat := 1
def ofpscExpSetUExtractor : Nat := 2
def ofpscExpSetFlowState : Nat := 3
def ofpscExpDelFlowState : Nat := 4
def ofpscExpSetGlobalState : Nat := 5
def ofpscExpResetGlobalState : Nat := 6
def ofpscAddPkttmp : Nat := 0
def ofpscDelPkttmp : Nat := 1

def ofpatExpSetState : Nat := 0
def ofpatExpSetGlobalState : Nat := 1
def ofpatExpIncState : Nat := 2

def ofpmpExpStateStats : Nat := 0
def ofpmpExpGlobalStateStats : Nat := 1
def ofpmpExpStateStatsAndDelete : Nat := 2
def ofpmpExpStateStatsShort : Nat := 3
def ofpmpExpStateStatsAndDeleteShort : Nat := 4

/-! ## Actions -/

def expActionSetState (state tableId bit hardTimeout idleTimeout hardRollback idleRollback
    stateMask : Nat) : PyResult Action := do
  let data ← pack ofpExpActionSetStatePackStr [.int ofpatExpSetState, .int state, .int stateMask,
    .int tableId, .int hardRollback, .int idleRollback, .int (hardTimeout * 1000000),
    .int (idleTimeout * 1000000), .int bit]
  return .experimenterUnknown bebaExperimenterId (some data)

def expActionSetGlobalState (globalState globalStateMask : Nat) : PyResult Action := do
  let data ← pack ofpExpActionSetGlobalStatePackStr
    [.int ofpatExpSetGlobalState, .int globalState, .int globalStateMask]
  return .experimenterUnknown bebaExperimenterId (some data)

def expActionIncState (tableId : Nat) : PyResult Action := do
  let data ← pack ofpExpActionIncStatePackStr [.int ofpatExpIncState, .int tableId]
  return .experimenterUnknown bebaExperimenterId (some data)

/-! ## The instruction that generates a packet -/

def ofpitExperimenter : Nat := 0xffff
def ofpitInSwitchPktGen : Nat := 0

def ofpInstructionInswitchPktGenPackStr : Fmt := [H, H, I, I, x 4, I, x 4]
def ofpInstructionInswitchPktGenSize : Nat := 24

structure OFPInstructionInSwitchPktGen where
  type : Nat
  experimenterId : Nat
  instrType : Nat
  pkttmpId : Nat
  actions : List Action
  deriving Repr

namespace OFPInstructionInSwitchPktGen

/-- The constructor; the default for the actions cannot be iterated over. -/
def init (pkttmpId : Nat) : Option (List Action) → PyResult OFPInstructionInSwitchPktGen
  | some actions =>
    .ok ⟨ofpitExperimenter, bebaExperimenterId, ofpitInSwitchPktGen, pkttmpId, actions⟩
  | none => .error .typeError

def serialize (conv : Addrconv) (i : OFPInstructionInSwitchPktGen) : Writer := fun buf offset => do
  let (buf, actionOffset) ←
    writeAll (Action.serialize conv) i.actions buf (offset + ofpInstructionInswitchPktGenSize)
  let len := actionOffset - offset
  let padLen := roundUp len 8 - len
  let buf ← msgPackInto [x padLen] buf actionOffset []
  let len := len + padLen
  let buf ← msgPackInto ofpInstructionInswitchPktGenPackStr buf offset
    [.int i.type, .int len, .int i.experimenterId, .int i.instrType, .int i.pkttmpId]
  return (buf, len)

/-- The structure has five values, for which there are four names. -/
def parser (conv : Addrconv) (depth : Nat) (buf : Bytes) (offset : Nat) :
    Py (OFPInstructionInSwitchPktGen × Nat) := do
  let [.int type, .int len, .int experimenterId, .int instrType] ←
    unpackFrom ofpInstructionInswitchPktGenPackStr buf offset | Py.raise .valueError
  let acts ← span (Action.parser conv depth buf) (offset + ofpInstructionInswitchPktGenSize)
    (len - ofpInstructionInswitchPktGenSize)
  -- the type stands in the place of `pkttmp_id`
  let inst ← (liftM (init type (some acts)) : Py OFPInstructionInSwitchPktGen)
  return (⟨inst.type, experimenterId, instrType, inst.pkttmpId, inst.actions⟩, len)

/-- Whatever was written, reading it raises. -/
theorem parser_of_serialize {conv : Addrconv} (depth : Nat) {i : OFPInstructionInSwitchPktGen}
    {buf buf' : Bytes} {off len : Nat} (h : i.serialize conv buf off = .ok (buf', len)) :
    Py.Ends (parser conv depth buf' off) (.error .valueError) := by
  obtain ⟨⟨buf₁, actionOffset⟩, -, h⟩ := bind_eq_ok.1 h
  obtain ⟨buf₂, -, h⟩ := bind_eq_ok.1 h
  obtain ⟨buf₃, hpack, h⟩ := bind_eq_ok.1 h
  cases h
  obtain ⟨hfit, rfl⟩ := msgPackInto_eq_ok_iff.1 hpack
  refine Py.Ends.bind (ends_lift.2 (if_pos ?_)) (ends_ofExcept.2 rfl)
  rw [length_splice, length_encode hfit]
  exact Nat.le_max_right _ _

/-- The instruction that is built for a packet template and a list of actions comes back from what
it writes, with its length. -/
def RoundTrips (conv : Addrconv) (depth pkttmpId : Nat) (actions : List Action) (buf : Bytes)
    (off : Nat) : Prop :=
  ∃ inst buf' len, init pkttmpId (some actions) = .ok inst ∧
    inst.serialize conv buf off = .ok (buf', len) ∧
    Py.Ends (parser conv depth buf' off) (.ok (inst, len))

theorem not_roundTrips (conv : Addrconv) (depth pkttmpId : Nat) (actions : List Action)
    (buf : Bytes) (off : Nat) : ¬RoundTrips conv depth pkttmpId actions buf off := by
  rintro ⟨inst, buf', len, -, hser, hends⟩
  have herror := parser_of_serialize depth hser
  cases hends.unique herror

/-- An instruction without actions: 24 bytes are written, and `ValueError` is raised on them. -/
theorem pktGen_empty_raises :
    ∃ inst buf', init 7 (some []) = .ok inst ∧
      inst.serialize OFPMatch.latin1Addrconv [] 0 = .ok (buf', 24) ∧
      Py.Ends (parser OFPMatch.latin1Addrconv 0 buf' 0) (.error .valueError) :=
  ⟨_, _, rfl, rfl, 1, rfl⟩

end OFPInstructionInSwitchPktGen

/-! ## Messages -/

/-- A state modification: the command, then what belongs to it. -/
def stateMod (command : Nat) (rest : PyResult Bytes) : PyResult OFPExperimenter := do
  let data ← pack ofpExpStateModPackStr [.int command]
  let rest ← rest
  return ⟨bebaExperimenterId, ofptExpStateMod, some (data ++ rest), none⟩

/-- The command of a state modification can be read back. -/
theorem stateMod_ok {command : Nat} {r : PyResult Bytes} {msg : OFPExperimenter}
    (h : stateMod command r = .ok msg) :
    ∃ rest, r = .ok rest ∧ unpack ofpExpStateModPackStr
        ((encode ofpExpStateModPackStr [.int command] ++ rest).take 2) = .ok [.int command] ∧
      msg = ⟨bebaExperimenterId, ofptExpStateMod,
        some (encode ofpExpStateModPackStr [.int command] ++ rest), none⟩ := by
  obtain ⟨cmd, hcmd, h⟩ := bind_eq_ok.1 h
  obtain ⟨rest, hrest, h⟩ := bind_eq_ok.1 h
  cases h
  obtain ⟨hfit, rfl⟩ := pack_ok_iff.1 hcmd
  refine ⟨rest, hrest, ?_, rfl⟩
  exact unpack_encode (exact_of_fits_int (show fits _ ([command].map .int) = true from hfit))

def expMsgConfigureStatefulTable (stateful tableId : Nat) : PyResult OFPExperimenter :=
  stateMod ofpscExpStatefulTableConfig
    (pack ofpExpStateModStatefulTableConfigPackStr [.int tableId, .int stateful])

/-- `lookup_scope` or `update_scope`: the fields kept for a table. -/
abbrev Scope := Nat → Option (List Nat)

def Scope.set (scope : Scope) (tableId : Nat) (fields : List Nat) : Scope :=
  Function.update scope tableId (some fields)

/-- Too many fields are counted as none. -/
def fieldCount (fields : List Nat) : Nat :=
  if fields.length > maxFieldCount then 0 else fields.length

def extractorData (tableId bit : Nat) (fields : List Nat) : PyResult Bytes := do
  let data ← pack ofpExpStateModExtractorPackStr
    [.int tableId, .int bit, .int (fieldCount fields)]
  let rest ← packEach I (fields.take (fieldCount fields))
  return data ++ rest

/-- The message, and `lookup_scope` after the call; `none` for a datapath without the attribute. -/
def expMsgKeyExtract (lookupScope : Option Scope) (command : Nat) (fields : List Nat)
    (tableId bit : Nat) : PyResult (OFPExperimenter × Option Scope) := do
  let msg ← stateMod command (extractorData tableId bit fields)
  if command = ofpscExpSetLExtractor then
    return (msg, some ((lookupScope.getD fun _ => none).set tableId fields))
  else return (msg, lookupScope)

/-- Too many key bytes are counted as none. -/
def keyCount (keys : List Nat) : Nat := if keys.length > maxKeyLen then 0 else keys.length

def expMsgSetFlowState (state : Nat) (keys : List Nat) (tableId idleTimeout idleRollback hardTimeout
    hardRollback stateMask : Nat) : PyResult OFPExperimenter :=
  stateMod ofpscExpSetFlowState do
    let data ← pack ofpExpStateModSetFlowStatePackStr [.int tableId, .int (keyCount keys),
      .int state, .int stateMask, .int hardRollback, .int idleRollback,
      .int (hardTimeout * 1000000), .int (idleTimeout * 1000000)]
    let rest ← packEach B (keys.take (keyCount keys))
    return data ++ rest

def expMsgDelFlowState (keys : List Nat) (tableId : Nat) : PyResult OFPExperimenter :=
  stateMod ofpscExpDelFlowState do
    let data ← pack ofpExpStateModDelFlowStatePackStr [.int tableId, .int (keyCount keys)]
    let rest ← packEach B (keys.take (keyCount keys))
    return data ++ rest

def expSetGlobalState (globalState globalStateMask : Nat) : PyResult OFPExperimenter :=
  stateMod ofpscExpSetGlobalState
    (pack ofpExpStateModSetGlobalStatePackStr [.int globalState, .int globalStateMask])

def expResetGlobalState : PyResult OFPExperimenter := stateMod ofpscExpResetGlobalState (.ok [])

/-- A modification of the packet templates. -/
def pkttmpMod (command : Nat) (rest : PyResult Bytes) : PyResult OFPExperimenter := do
  let data ← pack ofpExpPkttmpModPackStr [.int command]
  let rest ← rest
  return ⟨bebaExperimenterId, ofptExpPkttmpMod, some (data ++ rest), none⟩

def expMsgAddPktTmp (pkttmpId : Nat) (pktData : Bytes) : PyResult OFPExperimenter :=
  pkttmpMod ofpscAddPkttmp do
    let data ← pack ofpExpPkttmpModAddPkttmpPackStr [.int pkttmpId]
    return data ++ pktData

def expMsgDelPktTmp (pkttmpId : Nat) : PyResult OFPExperimenter :=
  pkttmpMod ofpscDelPkttmp (pack ofpExpPkttmpModDelPkttmpPackStr [.int pkttmpId])

section Stats

variable (conv : Addrconv)

/-- Without a state the request asks for all of them. -/
def expStateStatsMultipartRequestBase (expType tableId : Nat) (state : Option Nat)
    (ofpMatch : OFPMatch) : PyResult OFPExperimenterStatsRequest := do
  let data ← msgPackInto ofpStateStatsRequest0PackStr [] 0
    [.int tableId, .int (if state.isSome then 1 else 0), .int (state.getD 0)]
  let (data, _) ← ofpMatch.serialize conv data 8
  return ⟨0, bebaExperimenterId, expType, data, none⟩

def expStateStatsMultipartRequest :=
  expStateStatsMultipartRequestBase conv ofpmpExpStateStats

def expStateStatsMultipartRequestAndDelete :=
  expStateStatsMultipartRequestBase conv ofpmpExpStateStatsAndDelete

def expStateStatsMultipartRequestShort :=
  expStateStatsMultipartRequestBase conv ofpmpExpStateStatsShort

def expStateStatsMultipartRequestAndDeleteShort :=
  expStateStatsMultipartRequestBase conv ofpmpExpStateStatsAndDeleteShort

end Stats

def expGlobalStateStatsMultipartRequest : OFPExperimenterStatsRequest :=
  ⟨0, bebaExperimenterId, ofpmpExpGlobalStateStats, [], none⟩

/-! ## Extractors as the switch reads them -/

structure Extractor where
  command : Nat
  tableId : Nat
  bit : Nat
  fields : List Nat
  deriving DecidableEq, Repr

/-- The reading of a key-extract message by its pack strings. -/
def Extractor.read (data : Bytes) : PyResult Extractor := do
  let [.int command] ← unpackFrom ofpExpStateModPackStr data 0 | throw .valueError
  let [.int tableId, .int bit, .int count] ← unpackFrom ofpExpStateModExtractorPackStr data 2
    | throw .valueError
  let fields ← unpackEach I data 14 count
  return ⟨command, tableId, bit, fields⟩

theorem fieldCount_le (fields : List Nat) : fieldCount fields ≤ fields.length := by
  unfold fieldCount
  split <;> omega

variable {fields : List Nat}

theorem take_fieldCount (h : fields.length ≤ maxFieldCount) :
    fields.take (fieldCount fields) = fields := by
  rw [fieldCount, if_neg (by omega), take_length]

theorem take_fieldCount_of_lt (h : maxFieldCount < fields.length) :
    fields.take (fieldCount fields) = [] := by
  rw [fieldCount, if_pos h, take_zero]

/-- The header of a key-extract message fits, and the switch reads the counted fields from it. -/
theorem read_extractorData {command tableId bit : Nat} {msg : OFPExperimenter}
    (h : stateMod command (extractorData tableId bit fields) = .ok msg) :
    tableId < 256 ∧ bit < 256 ∧
      ∃ data, msg = ⟨bebaExperimenterId, ofptExpStateMod, some data, none⟩ ∧
        Extractor.read data = .ok ⟨command, tableId, bit, fields.take (fieldCount fields)⟩ := by
  obtain ⟨cmd, hcmd, h⟩ := bind_eq_ok.1 h
  obtain ⟨rest, hrest, ⟨⟩⟩ := bind_eq_ok.1 h
  obtain ⟨hdr, hhdr, hrest⟩ := bind_eq_ok.1 hrest
  obtain ⟨words, hwords, ⟨⟩⟩ := bind_eq_ok.1 hrest
  obtain ⟨hfit0, rfl⟩ := pack_ok_iff.1 hcmd
  obtain ⟨hfit1, rfl⟩ := pack_ok_iff.1 hhdr
  have hlt := packEach_ok hwords
  rw [packEach_uint hlt] at hwords
  cases hwords
  have hbytes : tableId < 256 ∧ bit < 256 := by
    simp only [ofpExpStateModExtractorPackStr, fits, Bool.and_eq_true, decide_eq_true_eq] at hfit1
    exact ⟨hfit1.1, hfit1.2.1⟩
  refine ⟨hbytes.1, hbytes.2, _, rfl, ?_⟩
  set cmd := encode ofpExpStateModPackStr [.int command]
  set hdr :=
    encode ofpExpStateModExtractorPackStr [.int tableId, .int bit, .int (fieldCount fields)]
  set words := ((fields.take (fieldCount fields)).map (beEncode 4)).flatten
  have hcmdLen : cmd.length = 2 := length_encode hfit0
  have hhdrLen : hdr.length = 12 := length_encode hfit1
  have hat : At (cmd ++ (hdr ++ words)) 0 (cmd ++ (hdr ++ words)) := prefix_rfl
  have hcmdAt := unpackFrom_at (exact_of_fits_int
    (show fits _ ([command].map .int) = true from hfit0)) (by decide) hat.left
  have hhdrAt := unpackFrom_at (exact_of_fits_int
    (show fits _ ([tableId, bit, fieldCount fields].map .int) = true from hfit1)) (by decide)
    hat.right.left
  have hwordsAt := unpackEach_at hlt hat.right.right
  rw [length_take, Nat.min_eq_left (fieldCount_le fields)] at hwordsAt
  simp only [hcmdLen, hhdrLen, map_cons, map_nil, Nat.zero_add] at hcmdAt hhdrAt hwordsAt
  simp [Extractor.read, hcmdAt, hhdrAt, hwordsAt]

/-! ## The lookup scope over a sequence of calls -/

structure KeyExtractCall where
  command : Nat
  fields : List Nat
  tableId : Nat
  bit : Nat

/-- `lookup_scope` of the datapath and the messages built so far. -/
structure KeyExtractState where
  lookupScope : Option Scope
  built : List OFPExperimenter

/-- A call that raises leaves no trace. -/
def KeyExtractCall.step (s : KeyExtractState) (c : KeyExtractCall) : KeyExtractState :=
  match expMsgKeyExtract s.lookupScope c.command c.fields c.tableId c.bit with
  | .ok (msg, lookupScope) => ⟨lookupScope, s.built ++ [msg]⟩
  | .error _ => s

def keyExtractRun (calls : List KeyExtractCall) : KeyExtractState :=
  calls.foldl KeyExtractCall.step ⟨none, []⟩

/-- What a message tells the switch about lookup scopes. -/
def tell (scope : Scope) (msg : OFPExperimenter) : Scope :=
  match Extractor.read (msg.data.getD []) with
  | .ok e => if e.command = ofpscExpSetLExtractor then scope.set e.tableId e.fields else scope
  | .error _ => scope

/-- The fields of the most recent lookup-scope message built for each table. -/
def told (built : List OFPExperimenter) : Scope := built.foldl tell fun _ => none

namespace KeyExtractState

def scope (s : KeyExtractState) : Scope := s.lookupScope.getD fun _ => none

/-- The controller has the lookup scope it told the switch to use, for every table. -/
def Coherent (s : KeyExtractState) : Prop := ∀ t, s.scope t = told s.built t

/-- A call that builds a message: what the controller keeps, and what the switch is told. -/
theorem scope_step (s : KeyExtractState) (c : KeyExtractCall) :
    c.step s = s ∨ c.tableId < 256 ∧ c.bit < 256 ∧
      (c.step s).scope =
        (if c.command = ofpscExpSetLExtractor then s.scope.set c.tableId c.fields else s.scope) ∧
      told (c.step s).built = if c.command = ofpscExpSetLExtractor then
        (told s.built).set c.tableId (c.fields.take (fieldCount c.fields)) else told s.built := by
  unfold KeyExtractCall.step
  split
  · rename_i msg lookupScope h
    obtain ⟨msg', hmsg, h⟩ := bind_eq_ok.1 h
    obtain ⟨ht, hb, data, hdata, hread⟩ := read_extractorData hmsg
    have htold : told (s.built ++ [msg']) = if c.command = ofpscExpSetLExtractor then
        (told s.built).set c.tableId (c.fields.take (fieldCount c.fields)) else told s.built := by
      simp [told, tell, hdata, hread]
    refine .inr ⟨ht, hb, ?_⟩
    split at h <;> rename_i hc <;> cases h
    · exact ⟨by rw [if_pos hc]; rfl, htold⟩
    · exact ⟨by rw [if_neg hc]; rfl, htold⟩
  · exact .inl rfl

variable {c : KeyExtractCall}

/-- A lookup-scope call with too many fields builds a message as long as its header fits. -/
theorem step_ne (s : KeyExtractState) (hc : c.command = ofpscExpSetLExtractor)
    (ht : c.tableId < 256) (hb : c.bit < 256) (hf : maxFieldCount < c.fields.length) :
    c.step s ≠ s := by
  have hcmd : fits ofpExpStateModPackStr [.int c.command] = true := by
    rw [hc]
    decide
  have hhdr : fits ofpExpStateModExtractorPackStr
      [.int c.tableId, .int c.bit, .int (fieldCount c.fields)] = true := by
    simp [fits, ofpExpStateModExtractorPackStr, ht, hb, fieldCount, hf]
  have hdata : extractorData c.tableId c.bit c.fields = .ok (encode ofpExpStateModExtractorPackStr
      [.int c.tableId, .int c.bit, .int (fieldCount c.fields)] ++ []) := by
    rw [extractorData, take_fieldCount_of_lt hf, pack_eq_ok hhdr]
    rfl
  intro h
  have hlen : (c.step s).built.length = s.built.length + 1 := by
    rw [KeyExtractCall.step, expMsgKeyExtract, stateMod, pack_eq_ok hcmd, hdata]
    simp [if_pos hc]
  rw [h] at hlen
  omega

theorem Coherent.step {s : KeyExtractState} (h : s.Coherent)
    (hc : c.command = ofpscExpSetLExtractor → c.tableId < 256 → c.bit < 256 →
      c.fields.length ≤ maxFieldCount) : (c.step s).Coherent := by
  rcases scope_step s c with hs | ⟨ht, hb, hscope, htold⟩
  · rwa [hs]
  intro t
  have hsame : s.scope = told s.built := funext h
  rw [hscope, htold, hsame]
  split
  · rename_i hcmd
    rw [take_fieldCount (hc hcmd ht hb)]
  · rfl

/-- After a lookup-scope call with too many fields the scopes differ, whatever they were before. -/
theorem not_coherent_step (s : KeyExtractState) (hc : c.command = ofpscExpSetLExtractor)
    (ht : c.tableId < 256) (hb : c.bit < 256) (hf : maxFieldCount < c.fields.length) :
    ¬(c.step s).Coherent := by
  rcases scope_step s c with hs | ⟨-, -, hscope, htold⟩
  · exact absurd hs (step_ne s hc ht hb hf)
  intro h
  have ht := h c.tableId
  rw [hscope, htold, if_pos hc, if_pos hc, take_fieldCount_of_lt hf] at ht
  simp only [Scope.set, Function.update_self, Option.some.injEq] at ht
  simp [ht] at hf

end KeyExtractState

theorem keyExtractRun_snoc (calls : List KeyExtractCall) (c : KeyExtractCall) :
    keyExtractRun (calls ++ [c]) = c.step (keyExtractRun calls) := by
  simp [keyExtractRun]

/-- The scopes agree after every call exactly when no call that builds a lookup-scope message has
more than six fields. -/
theorem lookupScope_coherent_iff (calls : List KeyExtractCall) :
    (∀ pre, pre <+: calls → (keyExtractRun pre).Coherent) ↔
      ∀ c ∈ calls, c.command = ofpscExpSetLExtractor → c.tableId < 256 → c.bit < 256 →
        c.fields.length ≤ maxFieldCount := by
  constructor
  · intro h c hc hcmd ht hb
    by_contra hf
    obtain ⟨before, after, rfl⟩ := append_of_mem hc
    have hpre := h (before ++ [c]) ⟨after, by simp⟩
    rw [keyExtractRun_snoc] at hpre
    exact KeyExtractState.not_coherent_step _ hcmd ht hb (by omega) hpre
  · intro h pre hpre
    induction pre using reverseRecOn with
    | nil => exact fun t => rfl
    | append_singleton pre c ih =>
      rw [keyExtractRun_snoc]
      exact (ih ((prefix_append pre [c]).trans hpre)).step (h c (hpre.subset (by simp)))

/-- The Ethernet addresses and type, the IPv4 addresses and the TCP ports. -/
def sevenFields : List Nat :=
  [oxmTlvHeader 3 6, oxmTlvHeader 4 6, oxmTlvHeader 5 2, oxmTlvHeader 11 4, oxmTlvHeader 12 4,
    oxmTlvHeader 13 2, oxmTlvHeader 14 2]

/-- Seven fields for table 0: the controller keeps them, the message encodes none. -/
theorem keyExtract_seven_fields :
    let s := keyExtractRun [⟨ofpscExpSetLExtractor, sevenFields, 0, 0⟩]
    s.scope 0 = some sevenFields ∧ told s.built 0 = some [] ∧ ¬s.Coherent := by
  have hscope : (keyExtractRun [⟨ofpscExpSetLExtractor, sevenFields, 0, 0⟩]).scope 0 =
      some sevenFields := by decide +kernel
  have htold : told (keyExtractRun [⟨ofpscExpSetLExtractor, sevenFields, 0, 0⟩]).built 0 =
      some [] := by decide +kernel
  refine ⟨hscope, htold, fun h => ?_⟩
  have h0 := h 0
  rw [hscope, htold] at h0
  cases h0

end BebaCtrl
