import Mathlib.Algebra.Order.Field.Rat
import BebaCtrl.Lib.Python

/-!
# Bridge and port identifiers

The values that the spanning tree compares. An address of an interface is written as a text of six
bytes; here it is the number that they make.
-/

namespace BebaCtrl.Stp

abbrev MacAddr := BitVec 48

structure BridgeId where
  priority : ℤ
  systemIdExtension : ℤ
  macAddr : MacAddr
  deriving DecidableEq

/-- `ConfigurationBPDUs.encode_bridge_id` -/
def BridgeId.value (b : BridgeId) : ℤ :=
  (b.priority + b.systemIdExtension) * 2 ^ 48 + b.macAddr.toNat

theorem BridgeId.mk_eq {b : BridgeId} (h : b.systemIdExtension = 0) :
    ⟨b.priority, 0, b.macAddr⟩ = b := by
  rw [← h]

theorem BridgeId.eq_of_value_eq {b b' : BridgeId}
    (hext : b.systemIdExtension = b'.systemIdExtension) (h : b.value = b'.value) : b = b' := by
  obtain ⟨priority, ext, mac⟩ := b
  obtain ⟨priority', ext', mac'⟩ := b'
  simp only [value] at hext h
  have hpriority : priority = priority' := by omega
  have htoNat : mac.toNat = mac'.toNat := by omega
  rw [hpriority, hext, BitVec.eq_of_toNat_eq htoNat]

structure PortId where
  priority : ℤ
  portNo : ℕ
  deriving DecidableEq

/-- `ConfigurationBPDUs.encode_port_id` -/
def PortId.value (p : PortId) : ℤ := p.priority * 2 ^ 8 + p.portNo

structure Times where
  messageAge : ℚ
  maxAge : ℚ
  helloTime : ℚ
  forwardDelay : ℚ
  deriving DecidableEq

/-- What is read of `OFPPhyPort`, or of `OFPPort` in the later versions of OpenFlow. -/
structure OfPort where
  portNo : ℕ
  hwAddr : MacAddr
  curr : ℕ
  deriving DecidableEq

def maxPortNo : ℕ := 0xfff

end BebaCtrl.Stp
