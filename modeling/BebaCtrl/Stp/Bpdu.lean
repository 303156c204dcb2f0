import BebaCtrl.Lib.BitFields
import BebaCtrl.Lib.Struct
import BebaCtrl.Stp.Basic

/-!
# Configuration messages

The packet in which a bridge tells the others about the root. The identifiers are packed into one
number each, with the priority in the uppermost bits; the timers count in 256ths of a second.
`parser_serialize` is the round trip.
-/

namespace BebaCtrl.Stp

structure ConfigurationBPDUs where
  flags : ℕ
  rootPriority : ℤ
  rootSystemIdExtension : ℤ
  rootMacAddress : MacAddr
  rootPathCost : ℤ
  bridgePriority : ℤ
  bridgeSystemIdExtension : ℤ
  bridgeMacAddress : MacAddr
  portPriority : ℤ
  portNumber : ℕ
  messageAge : ℚ
  maxAge : ℚ
  helloTime : ℚ
  forwardDelay : ℚ
  deriving DecidableEq

namespace ConfigurationBPDUs

open Struct

def rootId (b : ConfigurationBPDUs) : BridgeId :=
  ⟨b.rootPriority, b.rootSystemIdExtension, b.rootMacAddress⟩

def bridgeId (b : ConfigurationBPDUs) : BridgeId :=
  ⟨b.bridgePriority, b.bridgeSystemIdExtension, b.bridgeMacAddress⟩

def portId (b : ConfigurationBPDUs) : PortId := ⟨b.portPriority, b.portNumber⟩

/-- A timer is a multiple of `_TIMER_STEP`. -/
def IsTimer (t : ℚ) : Prop := (t * 256).den = 1

instance (t : ℚ) : Decidable (IsTimer t) := inferInstanceAs (Decidable (_ = _))

def checkParameters (b : ConfigurationBPDUs) : PyResult Unit := do
  pyAssert ((b.flags >>> 1) &&& 0b111111 = 0)
  pyAssert (b.rootPriority % 4096 = 0)
  pyAssert (b.bridgePriority % 4096 = 0)
  pyAssert (b.portPriority % 16 = 0)
  pyAssert (IsTimer b.messageAge)
  pyAssert (IsTimer b.maxAge)
  pyAssert (IsTimer b.helloTime)
  pyAssert (IsTimer b.forwardDelay)

/-- A negative number is out of the range of every format. -/
def unsigned (v : ℤ) : PyResult ℕ := if 0 ≤ v then .ok v.toNat else .error .structError

/-- The values that are packed. -/
def wireValues (b : ConfigurationBPDUs) : List ℤ :=
  [b.flags, b.rootId.value, b.rootPathCost, b.bridgeId.value, b.portId.value,
    (b.messageAge * 256).num, (b.maxAge * 256).num, (b.helloTime * 256).num,
    (b.forwardDelay * 256).num]

/-- `_PACK_STR` -/
def packStr : Fmt := [B, Q, I, Q, H, H, H, H, H]

def serialize (b : ConfigurationBPDUs) : PyResult Bytes := do
  pack packStr ((← b.wireValues.mapM unsigned).map .int)

/-- `_decode_bridge_id`, of the upper two bytes and the address. -/
def decodeBridgeId (v : ℕ) : BridgeId :=
  ⟨((v >>> 48) &&& 0xf000 : ℕ), ((v >>> 48) &&& 0xfff : ℕ), BitVec.ofNat 48 v⟩

/-- `_decode_port_id` -/
def decodePortId (v : ℕ) : PortId := ⟨((v >>> 8) &&& 0xf0 : ℕ), v &&& 0xfff⟩

def ofWire (flags : ℕ) (rootId : BridgeId) (rootPathCost : ℕ) (bridgeId : BridgeId)
    (portId : PortId) (messageAge maxAge helloTime forwardDelay : ℕ) : ConfigurationBPDUs :=
  ⟨flags, rootId.priority, rootId.systemIdExtension, rootId.macAddr, rootPathCost,
    bridgeId.priority, bridgeId.systemIdExtension, bridgeId.macAddr, portId.priority, portId.portNo,
    messageAge / 256, maxAge / 256, helloTime / 256, forwardDelay / 256⟩

def parser (buf : Bytes) : PyResult ConfigurationBPDUs := do
  let vs ← unpackFrom packStr buf 0
  let [.int flags, .int rootId, .int rootPathCost, .int bridgeId, .int portId, .int messageAge,
    .int maxAge, .int helloTime, .int forwardDelay] := vs | throw .valueError
  let b := ofWire flags (decodeBridgeId rootId) rootPathCost (decodeBridgeId bridgeId)
    (decodePortId portId) messageAge maxAge helloTime forwardDelay
  b.checkParameters
  return b

/-! ### Round trip -/

theorem decodeBridgeId_value {id : BridgeId} (hpriority : id.priority % 4096 = 0)
    (hext : 0 ≤ id.systemIdExtension ∧ id.systemIdExtension < 4096) (h₀ : 0 ≤ id.value)
    (h : id.value.toNat < 256 ^ 8) : decodeBridgeId id.value.toNat = id := by
  obtain ⟨priority, ext, mac⟩ := id
  obtain ⟨k, rfl⟩ := Int.dvd_of_emod_eq_zero hpriority
  simp only [BridgeId.value] at h₀ h hext ⊢
  have hmask : (0xf000 : ℕ) = (2 ^ 4 - 1) <<< 12 := rfl
  have hlow : (0xfff : ℕ) = 2 ^ 12 - 1 := rfl
  unfold decodeBridgeId
  rw [hmask, and_mask, hlow, Nat.and_two_pow_sub_one_eq_mod, Nat.shiftRight_eq_div_pow]
  congr 1
  · omega
  · omega
  · apply BitVec.eq_of_toNat_eq
    rw [BitVec.toNat_ofNat]
    omega

theorem decodePortId_value {id : PortId} (hpriority : id.priority % 16 = 0)
    (hno : id.portNo ≤ maxPortNo) (h₀ : 0 ≤ id.value) (h : id.value.toNat < 256 ^ 2) :
    decodePortId id.value.toNat = id := by
  obtain ⟨priority, portNo⟩ := id
  obtain ⟨k, rfl⟩ := Int.dvd_of_emod_eq_zero hpriority
  simp only [PortId.value, maxPortNo] at h₀ h hno ⊢
  have hmask : (0xf0 : ℕ) = (2 ^ 4 - 1) <<< 4 := rfl
  have hlow : (0xfff : ℕ) = 2 ^ 12 - 1 := rfl
  unfold decodePortId
  rw [hmask, and_mask, hlow, Nat.and_two_pow_sub_one_eq_mod, Nat.shiftRight_eq_div_pow]
  congr 1
  · omega
  · omega

theorem decodeTimer_encode {t : ℚ} (ht : IsTimer t) (h₀ : 0 ≤ (t * 256).num) :
    ((t * 256).num.toNat : ℚ) / 256 = t := by
  have hnum : ((t * 256).num : ℚ) = t * 256 := Rat.den_eq_one_iff _ |>.1 ht
  have hnat : ((t * 256).num.toNat : ℚ) = ((t * 256).num : ℚ) := by
    rw [← Int.cast_natCast, Int.toNat_of_nonneg h₀]
  rw [hnat, hnum]
  exact mul_div_cancel_right₀ t (by norm_num)

theorem of_mapM_unsigned {vs : List ℤ} {ns : List ℕ} (h : vs.mapM unsigned = .ok ns) :
    (∀ v ∈ vs, 0 ≤ v) ∧ ns = vs.map Int.toNat := by
  have hpos : ∀ v ∈ vs, 0 ≤ v := by
    intro v hv
    obtain ⟨n, -, hn⟩ := exists_of_mapM h hv
    by_contra hneg
    rw [unsigned, if_neg hneg] at hn
    cases hn
  have hmap : vs.mapM unsigned = .ok (vs.map Int.toNat) :=
    mapM_eq_map fun v hv => if_pos (hpos v hv)
  rw [hmap] at h
  cases h
  exact ⟨hpos, rfl⟩

variable {b : ConfigurationBPDUs}

theorem rootPathCost_nonneg {data : Bytes} (h : b.serialize = .ok data) : 0 ≤ b.rootPathCost := by
  obtain ⟨ns, hns, -⟩ := bind_eq_ok.1 h
  exact (of_mapM_unsigned hns).1 _ (by simp [wireValues])

theorem of_checkParameters (h : b.checkParameters = .ok ()) :
    b.rootPriority % 4096 = 0 ∧ b.bridgePriority % 4096 = 0 ∧ b.portPriority % 16 = 0 ∧
      IsTimer b.messageAge ∧ IsTimer b.maxAge ∧ IsTimer b.helloTime ∧ IsTimer b.forwardDelay := by
  obtain ⟨_, -, h⟩ := bind_eq_ok.1 h
  obtain ⟨_, hroot, h⟩ := bind_eq_ok.1 h
  obtain ⟨_, hbridge, h⟩ := bind_eq_ok.1 h
  obtain ⟨_, hport, h⟩ := bind_eq_ok.1 h
  obtain ⟨_, hage, h⟩ := bind_eq_ok.1 h
  obtain ⟨_, hmax, h⟩ := bind_eq_ok.1 h
  obtain ⟨_, hhello, h⟩ := bind_eq_ok.1 h
  exact ⟨of_pyAssert hroot, of_pyAssert hbridge, of_pyAssert hport, of_pyAssert hage,
    of_pyAssert hmax, of_pyAssert hhello, of_pyAssert h⟩

/-- What a bridge sends is what the others read. -/
theorem parser_serialize {data : Bytes} (hcheck : b.checkParameters = .ok ())
    (hroot : 0 ≤ b.rootSystemIdExtension ∧ b.rootSystemIdExtension < 4096)
    (hbridge : 0 ≤ b.bridgeSystemIdExtension ∧ b.bridgeSystemIdExtension < 4096)
    (hno : b.portNumber ≤ maxPortNo) (h : b.serialize = .ok data) : parser data = .ok b := by
  obtain ⟨ns, hns, hpack⟩ := bind_eq_ok.1 h
  obtain ⟨hpos, rfl⟩ := of_mapM_unsigned hns
  have hunpack := unpackFrom_of_pack hpack (by decide) (show At data 0 data from List.prefix_rfl)
  have hfits := (pack_ok_iff.1 hpack).1
  obtain ⟨hrootPriority, hbridgePriority, hportPriority, hage, hmax, hhello, hdelay⟩ :=
    of_checkParameters hcheck
  simp only [wireValues, List.forall_mem_cons] at hpos
  obtain ⟨-, hroot₀, hcost₀, hbridge₀, hport₀, hage₀, hmax₀, hhello₀, hdelay₀, -⟩ := hpos
  simp only [wireValues, packStr, List.map_cons, fits, Bool.and_eq_true, decide_eq_true_eq] at hfits
  obtain ⟨-, hroot₁, hcost₁, hbridge₁, hport₁, -⟩ := hfits
  have hof : ofWire (b.flags : ℤ).toNat (decodeBridgeId b.rootId.value.toNat) b.rootPathCost.toNat
      (decodeBridgeId b.bridgeId.value.toNat) (decodePortId b.portId.value.toNat)
      (b.messageAge * 256).num.toNat (b.maxAge * 256).num.toNat (b.helloTime * 256).num.toNat
      (b.forwardDelay * 256).num.toNat = b := by
    rw [decodeBridgeId_value hrootPriority hroot hroot₀ hroot₁,
      decodeBridgeId_value hbridgePriority hbridge hbridge₀ hbridge₁,
      decodePortId_value hportPriority hno hport₀ hport₁, ofWire, decodeTimer_encode hage hage₀,
      decodeTimer_encode hmax hmax₀, decodeTimer_encode hhello hhello₀,
      decodeTimer_encode hdelay hdelay₀, Int.toNat_of_nonneg hcost₀, Int.toNat_natCast]
    rfl
  rw [parser, hunpack]
  change (do checkParameters (ofWire _ _ _ _ _ _ _ _ _); return ofWire _ _ _ _ _ _ _ _ _) = _
  rw [hof, hcheck]
  rfl

end ConfigurationBPDUs

end BebaCtrl.Stp
