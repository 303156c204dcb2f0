import Mathlib.Data.Fintype.Lattice
import BebaCtrl.Lib.ParentTree
import BebaCtrl.Stp.Roles

/-!
# Stable networks

A network is stable when every port has stored what the port at the other end of its link sends, and
every bridge has the roles that follow from what its ports have stored. In a stable network all
bridges agree on the bridge with the lowest identifier as the root, and the links between ports that
are not blocked form a spanning tree (`Network.Stable.spanningTree`).

The tree is that of the root ports: each leads to a bridge that is strictly nearer to the root, by
the path cost that the other bridge has added to its own.
-/

namespace BebaCtrl.Stp

open Option Bridge

/-- Bridges with links between their ports. A port is given by its bridge and its number. -/
structure Network (V : Type) where
  bridges : V → Bridge
  peer : V × ℕ → Option (V × ℕ)
  peer_symm : ∀ x y, peer x = some y → peer y = some x
  peer_ne : ∀ x y, peer x = some y → x.1 ≠ y.1
  portNo_le : ∀ v n p, (bridges v).ports.lookup n = some p → n ≤ maxPortNo
  systemIdExtension_eq_zero : ∀ v, (bridges v).bridgeId.systemIdExtension = 0
  bridgeId_injective : Function.Injective fun v => (bridges v).bridgeId

namespace Network

variable {V : Type} (net : Network V)

def port (x : V × ℕ) : Option Port := (net.bridges x.1).ports.lookup x.2

/-- The ports `x` and `y` are linked, and both are enabled. -/
structure Link (x y : V × ℕ) (p q : Port) : Prop where
  peer : net.peer x = some y
  left : net.port x = some p
  right : net.port y = some q
  enabled_left : p.Enabled
  enabled_right : q.Enabled

variable {net} in
theorem Link.symm {x y : V × ℕ} {p q : Port} (h : net.Link x y p q) : net.Link y x q p :=
  ⟨net.peer_symm x y h.peer, h.right, h.left, h.enabled_right, h.enabled_left⟩

/-- The path cost is the same at both ends of each link, and positive. -/
def EqualCosts : Prop := ∀ x y p q, net.Link x y p q → p.pathCost = q.pathCost ∧ 0 < p.pathCost

/-- The graph of the bridges, with an edge where there is a link that meets a condition. -/
def graph (P : Port → Port → Prop) (hP : ∀ p q, P p q → P q p) : SimpleGraph V where
  Adj u v := ∃ x y p q, net.Link x y p q ∧ P p q ∧ x.1 = u ∧ y.1 = v
  symm := by
    constructor
    rintro _ _ ⟨x, y, p, q, hlink, hpq, rfl, rfl⟩
    exact ⟨y, x, q, p, hlink.symm, hP p q hpq, rfl, rfl⟩
  loopless := by
    constructor
    rintro _ ⟨x, y, p, q, hlink, -, rfl, hy⟩
    exact net.peer_ne x y hlink.peer hy.symm

/-- The network without regard to the roles. -/
def linkGraph : SimpleGraph V := net.graph (fun _ _ => True) fun _ _ => id

/-- A link both of whose ends are root ports or designated. -/
def IsActive (p q : Port) : Prop := p.role ≠ .nonDesignated ∧ q.role ≠ .nonDesignated

def activeGraph : SimpleGraph V := net.graph IsActive fun _ _ => And.symm

/-- The port `y` sends the message `m`. -/
def Sends (y : V × ℕ) (q : Port) (m : Message) : Prop :=
  ∃ flags data bpdu, q.generateConfigBpdu (net.bridges y.1).bridgeId y.2 flags = .ok data ∧
    ConfigurationBPDUs.parser data = .ok bpdu ∧ m = .ofBpdu bpdu

/-- A way along links that ends at `r`, with the sum of the path costs of the ports by which it
leaves the bridges. -/
inductive Route (net : Network V) (r : V) : V → ℤ → Prop where
  | here : Route net r r 0
  | via {x y : V × ℕ} {p q : Port} {cost : ℤ} (hlink : net.Link x y p q)
    (h : Route net r y.1 cost) :
      Route net r x.1 (cost + p.pathCost)

structure Stable : Prop where
  /-- A port stores what the other end of its link sends, if that is designated. -/
  stored : ∀ x y p q, net.Link x y p q → q.role = .designated →
    ∃ m times, p.designated = some (m, times) ∧ net.Sends y q m
  /-- Otherwise it stores nothing. -/
  empty : ∀ x p, net.port x = some p → p.Enabled →
    (∀ y q, net.Link x y p q → q.role ≠ .designated) → p.designated = none
  role : ∀ x p, net.port x = some p → p.Enabled →
    (net.bridges x.1).reset.spanningTreeAlgorithm.1.lookup x.2 = some p.role
  rootPriority : ∀ v, (net.bridges v).rootPriority = (net.bridges v).reset.spanningTreeAlgorithm.2.1
  portPriority : ∀ x p, net.port x = some p → p.Enabled →
    p.portPriority = (net.bridges x.1).rootPriority

def rootId (v : V) : BridgeId := (net.bridges v).rootPriority.rootId

def rootPathCost (v : V) : ℤ := (net.bridges v).rootPriority.rootPathCost

/-- What `_select_root_port` finds, if the bridge takes itself for the root first. -/
def rootPort (v : V) : Option Bridge.Candidate := (net.bridges v).reset.selectRootPort

/-- The bridge `r` has the lowest identifier. -/
def IsLowest (r : V) : Prop :=
  ∀ v, (net.bridges r).bridgeId.value ≤ (net.bridges v).bridgeId.value

/-- Where the root port of a bridge leads. -/
def parent (v : V) : V := ((net.rootPort v).bind fun c => net.peer (v, c.portNo)).elim v Prod.fst

theorem parent_eq {v : V} {y : V × ℕ} {c : Bridge.Candidate} (hc : net.rootPort v = some c)
    (hpeer : net.peer (v, c.portNo) = some y) : net.parent v = y.1 := by
  rw [parent, hc, bind_some, hpeer]
  rfl

variable {net} {x y : V × ℕ} {p q : Port} {m : Message} {times : Times} {v r : V}
  {c : Bridge.Candidate}

/-! ### What is stored -/

theorem Sends.eq (hq : net.port y = some q) (h : net.Sends y q m) :
    m = .ofBpdu (q.configBpdu (net.bridges y.1).bridgeId y.2 0) ∧ 0 ≤ m.rootPathCost := by
  obtain ⟨flags, data, bpdu, hdata, hbpdu, rfl⟩ := h
  rw [Port.parser_generateConfigBpdu (net.portNo_le _ _ _ hq) hdata] at hbpdu
  cases hbpdu
  obtain ⟨_, -, hserialize⟩ := bind_eq_ok.1 hdata
  exact ⟨rfl, ConfigurationBPDUs.rootPathCost_nonneg hserialize⟩

namespace Stable

variable (h : net.Stable)

include h

/-- The sender of a message that is stored. -/
theorem exists_sender (hp : net.port x = some p) (henabled : p.Enabled)
    (hm : p.designated = some (m, times)) :
    ∃ y q, net.Link x y p q ∧ q.role = .designated ∧ net.Sends y q m := by
  by_contra hnone
  have hempty : p.designated = none := by
    apply h.empty x p hp henabled
    intro y q hlink hrole
    obtain ⟨m', times', hm', hsends⟩ := h.stored x y p q hlink hrole
    rw [hm] at hm'
    cases hm'
    exact hnone ⟨y, q, hlink, hrole, hsends⟩
  rw [hm] at hempty
  cases hempty

/-- What a port has stored was sent by the other end of its link. -/
theorem of_stored (hlink : net.Link x y p q) (hm : p.designated = some (m, times)) :
    q.role = .designated ∧ net.Sends y q m := by
  obtain ⟨y', q', hlink', hrole, hsends⟩ := h.exists_sender hlink.left hlink.enabled_left hm
  obtain rfl : y' = y := some.inj (hlink'.peer.symm.trans hlink.peer)
  obtain rfl : q' = q := some.inj (hlink'.right.symm.trans hlink.right)
  exact ⟨hrole, hsends⟩

theorem rootPriority_eq (v : V) :
    (net.bridges v).rootPriority = (net.bridges v).reset.rootMsg (net.rootPort v) :=
  (h.rootPriority v).trans spanningTreeAlgorithm_priority

/-- The link of the root port. -/
theorem exists_uplink (hc : net.rootPort v = some c) :
    ∃ y p q, net.Link (v, c.portNo) y p q ∧ q.role = .designated ∧
      p.designated = some (c.msg, c.times) ∧ net.Sends y q c.msg := by
  have hbest := selectRootPort_spec (b := (net.bridges v).reset) rfl
  rw [show (net.bridges v).reset.selectRootPort = some c from hc] at hbest
  obtain ⟨p, hp, henabled, hm⟩ := mem_candidates.1 hbest.mem
  obtain ⟨y, q, hlink, hrole, hsends⟩ :=
    h.exists_sender (x := (v, c.portNo)) (p := p) hp henabled hm
  exact ⟨y, p, q, hlink, hrole, hm, hsends⟩

theorem rootId_extension (v : V) : (net.rootId v).systemIdExtension = 0 := by
  unfold rootId
  rw [h.rootPriority_eq]
  cases hc : net.rootPort v with
  | none => exact net.systemIdExtension_eq_zero v
  | some c =>
    obtain ⟨y, p, q, hlink, -, -, hsends⟩ := h.exists_uplink hc
    change c.msg.rootId.systemIdExtension = 0
    rw [(hsends.eq hlink.right).1]
    rfl

/-- What a bridge sends: its root, its own cost with that of the port, and itself. -/
theorem of_sends (hq : net.port y = some q) (henabled : q.Enabled) (hsends : net.Sends y q m) :
    m = ⟨net.rootId y.1, net.rootPathCost y.1 + q.pathCost, (net.bridges y.1).bridgeId,
      ⟨q.priority, y.2⟩⟩ := by
  rw [(hsends.eq hq).1]
  simp only [Message.ofBpdu, Port.configBpdu, ConfigurationBPDUs.rootId,
    ConfigurationBPDUs.bridgeId, ConfigurationBPDUs.portId, h.portPriority y q hq henabled,
    BridgeId.mk_eq (net.systemIdExtension_eq_zero y.1)]
  exact congrArg (Message.mk · _ _ _) (BridgeId.mk_eq (h.rootId_extension y.1))

theorem rootPathCost_nonneg (v : V) : 0 ≤ net.rootPathCost v := by
  unfold rootPathCost
  rw [h.rootPriority_eq]
  cases hc : net.rootPort v with
  | none => exact le_rfl
  | some c =>
    obtain ⟨y, p, q, hlink, -, -, hsends⟩ := h.exists_uplink hc
    exact (hsends.eq hlink.right).2

/-! ### One root -/

theorem rootId_eq_of_some (hc : net.rootPort v = some c) :
    net.rootId v = c.msg.rootId ∧ net.rootPathCost v = c.msg.rootPathCost := by
  rw [rootId, rootPathCost, h.rootPriority_eq, hc]
  exact ⟨rfl, rfl⟩

/-- A bridge without a root port takes itself for the root. -/
theorem rootId_eq_of_none (hc : net.rootPort v = none) :
    net.rootId v = (net.bridges v).bridgeId ∧ net.rootPathCost v = 0 := by
  rw [rootId, rootPathCost, h.rootPriority_eq, hc]
  exact ⟨rfl, rfl⟩

/-- A bridge has the root of the bridge that its root port leads to, at a higher cost. -/
theorem rootId_eq_of_uplink (hc : net.rootPort v = some c) (hq : net.port y = some q)
    (henabled : q.Enabled) (hsends : net.Sends y q c.msg) :
    net.rootId v = net.rootId y.1 ∧ net.rootPathCost v = net.rootPathCost y.1 + q.pathCost := by
  obtain ⟨hroot, hcost⟩ := h.rootId_eq_of_some hc
  rw [hroot, hcost, h.of_sends hq henabled hsends]
  exact ⟨rfl, rfl⟩

theorem rootPathCost_lt_of_uplink (hcosts : net.EqualCosts) (hc : net.rootPort v = some c)
    (hlink : net.Link x y p q) (hsends : net.Sends y q c.msg) :
    net.rootPathCost y.1 < net.rootPathCost v := by
  have hcost := (h.rootId_eq_of_uplink hc hlink.right hlink.enabled_right hsends).2
  have hpos := (hcosts y x q p hlink.symm).2
  omega

/-- The root of every bridge is a bridge of the network: the one where the root ports lead. -/
theorem exists_rootId_eq (hcosts : net.EqualCosts) (v : V) :
    ∃ u, net.rootPort u = none ∧ net.rootId v = (net.bridges u).bridgeId := by
  cases hc : net.rootPort v with
  | none => exact ⟨v, hc, (h.rootId_eq_of_none hc).1⟩
  | some c =>
    obtain ⟨y, p, q, hlink, -, -, hsends⟩ := h.exists_uplink hc
    have hlt := h.rootPathCost_lt_of_uplink hcosts hc hlink hsends
    have hnonneg := h.rootPathCost_nonneg y.1
    obtain ⟨u, hu, hroot⟩ := exists_rootId_eq hcosts y.1
    exact ⟨u, hu, (h.rootId_eq_of_uplink hc hlink.right hlink.enabled_right hsends).1.trans hroot⟩
termination_by (net.rootPathCost v).toNat
decreasing_by omega

section

variable (hp : net.port x = some p) (henabled : p.Enabled)
include hp henabled

/-- No message that a bridge has stored is about a lower root. -/
theorem rootId_le
    (hm : p.designated = some (m, times)) : (net.rootId x.1).value ≤ m.rootId.value := by
  have hbest := selectRootPort_spec (b := (net.bridges x.1).reset) rfl
  have hmem : ⟨x.2, m, times⟩ ∈ (net.bridges x.1).reset.candidates :=
    mem_candidates.2 ⟨p, hp, henabled, hm⟩
  unfold rootId
  rw [h.rootPriority_eq, rootPort]
  cases hc : (net.bridges x.1).reset.selectRootPort with
  | none =>
    rw [hc] at hbest
    exact hbest _ hmem
  | some c =>
    rw [hc] at hbest
    exact rootId_le_of_key_le (hbest.key_le hmem)

theorem role_eq : p.role = (net.bridges x.1).reset.roleOf x.2 p := by
  have hrole := h.role x p hp henabled
  rw [lookup_spanningTreeAlgorithm (b := (net.bridges x.1).reset) hp henabled] at hrole
  exact (some.inj hrole).symm

/-- A port that is not designated has stored a message about the root of its bridge. -/
theorem exists_stored_of_role_ne (hrole : p.role ≠ .designated) :
    ∃ m times, p.designated = some (m, times) ∧ m.rootId.value = (net.rootId x.1).value := by
  rw [h.role_eq hp henabled, roleOf] at hrole
  unfold rootId
  rw [h.rootPriority_eq, rootPort]
  cases hc : (net.bridges x.1).reset.selectRootPort with
  | none => simp [hc] at hrole
  | some c =>
    simp only [hc] at hrole
    by_cases hno : x.2 = c.portNo
    · obtain ⟨y, p', q, hlink, -, hstored, -⟩ := h.exists_uplink hc
      have hleft : net.port x = some p' := by
        have hx : x = (x.1, c.portNo) := Prod.ext rfl hno
        rw [hx]
        exact hlink.left
      rw [hp] at hleft
      cases hleft
      exact ⟨c.msg, c.times, hstored, rfl⟩
    · rw [if_neg hno] at hrole
      have hnot : ¬ (net.bridges x.1).reset.IsDesignated c.msg x.2 p := by
        intro hdesignated
        exact hrole (if_pos hdesignated)
      simp only [Bridge.IsDesignated, not_forall] at hnot
      obtain ⟨⟨m, times⟩, hstored, hroot, -⟩ := hnot
      exact ⟨m, times, hstored, hroot⟩

/-- The root port of a bridge is the port with that role. -/
theorem role_eq_root_iff : p.role = .root ↔ ∃ c, net.rootPort x.1 = some c ∧ x.2 = c.portNo := by
  rw [h.role_eq hp henabled]
  exact roleOf_eq_root_iff

end

/-- A root port leads to a designated port. -/
theorem role_eq_designated_of_root (hlink : net.Link x y p q) (hp : p.role = .root) :
    q.role = .designated := by
  obtain ⟨m, times, hm, -⟩ :=
    h.exists_stored_of_role_ne hlink.left hlink.enabled_left (by simp [hp])
  exact (h.of_stored hlink hm).1

/-- A port that is not designated leads to a bridge that is no farther from the root. -/
theorem rootPathCost_le_of_role_ne (hcosts : net.EqualCosts) (hlink : net.Link x y p q)
    (hp : p.role ≠ .designated) : net.rootPathCost y.1 ≤ net.rootPathCost x.1 := by
  cases hrole : p.role with
  | designated => exact absurd hrole hp
  | root =>
    obtain ⟨c, hc, hno⟩ := (h.role_eq_root_iff hlink.left hlink.enabled_left).1 hrole
    obtain ⟨y', _, _, hlink', -, -, hsends⟩ := h.exists_uplink hc
    obtain rfl : y' = y := some.inj (hlink'.peer.symm.trans (hno ▸ hlink.peer))
    exact (h.rootPathCost_lt_of_uplink hcosts hc hlink' hsends).le
  | nonDesignated =>
    obtain ⟨m, times, hm, -⟩ := h.exists_stored_of_role_ne hlink.left hlink.enabled_left hp
    obtain rfl := h.of_sends hlink.right hlink.enabled_right (h.of_stored hlink hm).2
    have hequal := (hcosts x y p q hlink).1
    rw [h.role_eq hlink.left hlink.enabled_left, roleOf] at hrole
    cases hc : (net.bridges x.1).reset.selectRootPort with
    | none => simp [hc] at hrole
    | some c =>
      have hnot : ¬(net.bridges x.1).reset.IsDesignated c.msg x.2 p := by grind
      simp only [IsDesignated, hm, mem_some_iff, forall_eq', compareRootPath_eq_superior, pathKey,
        Prod.Lex.toLex_lt_toLex, ← (h.rootId_eq_of_some hc).2] at hnot
      omega

section Lowest

variable (hcosts : net.EqualCosts) (hr : net.IsLowest r)

include hcosts hr

theorem rootId_eq_of_value_le (hv : (net.rootId v).value ≤ (net.bridges r).bridgeId.value) :
    net.rootId v = (net.bridges r).bridgeId := by
  obtain ⟨u, -, hu⟩ := h.exists_rootId_eq hcosts v
  apply BridgeId.eq_of_value_eq
  · rw [h.rootId_extension, net.systemIdExtension_eq_zero]
  · have hle := hr u
    rw [← hu] at hle
    exact le_antisymm hv hle

/-- The ends of a link have the same root, once one of them has the lowest. -/
theorem rootId_eq_of_link (hlink : net.Link x y p q)
    (hx : net.rootId x.1 = (net.bridges r).bridgeId) :
    net.rootId y.1 = (net.bridges r).bridgeId := by
  apply h.rootId_eq_of_value_le hcosts hr
  rw [← hx]
  by_cases hrole : p.role = .designated
  · obtain ⟨m, times, hm, hsends⟩ := h.stored y x q p hlink.symm hrole
    have hle := h.rootId_le hlink.right hlink.enabled_right hm
    rw [h.of_sends hlink.left hlink.enabled_left hsends] at hle
    exact hle
  · obtain ⟨m, times, hm, hroot⟩ := h.exists_stored_of_role_ne hlink.left hlink.enabled_left hrole
    rw [h.of_sends hlink.right hlink.enabled_right (h.of_stored hlink hm).2] at hroot
    exact hroot.le

theorem rootPort_lowest : net.rootPort r = none := by
  by_contra hsome
  obtain ⟨c, hc⟩ := ne_none_iff_exists'.1 hsome
  have hbest := selectRootPort_spec (b := (net.bridges r).reset) rfl
  rw [show (net.bridges r).reset.selectRootPort = some c from hc] at hbest
  have hlt : c.msg.rootId.value < (net.bridges r).bridgeId.value := hbest.1
  obtain ⟨u, -, hu⟩ := h.exists_rootId_eq hcosts r
  rw [← (h.rootId_eq_of_some hc).1, hu] at hlt
  exact hlt.not_ge (hr u)

variable (hconnected : net.linkGraph.Connected)

include hconnected

theorem rootId_eq_lowest (v : V) : net.rootId v = (net.bridges r).bridgeId := by
  obtain ⟨walk⟩ := hconnected.preconnected v r
  induction walk with
  | nil => exact (h.rootId_eq_of_none (h.rootPort_lowest hcosts hr)).1
  | cons hadj _ ih =>
    obtain ⟨x, y, p, q, hlink, -, rfl, rfl⟩ := hadj
    exact h.rootId_eq_of_link hcosts hr hlink.symm (ih hr)

/-- The bridges that have a root port are all but the root. -/
theorem rootPort_eq_none_iff : net.rootPort v = none ↔ v = r := by
  constructor
  · intro hc
    have hown := (h.rootId_eq_of_none hc).1
    rw [h.rootId_eq_lowest hcosts hr hconnected] at hown
    exact (net.bridgeId_injective hown).symm
  · rintro rfl
    exact h.rootPort_lowest hcosts hr

theorem exists_rootPort (hv : v ≠ r) : ∃ c, net.rootPort v = some c :=
  ne_none_iff_exists'.1 (mt (h.rootPort_eq_none_iff hcosts hr hconnected).1 hv)

/-! ### The cheapest way -/

/-- No message that a bridge has stored offers a cheaper path. -/
theorem rootPathCost_le_of_stored (hlink : net.Link x y p q) (hm : p.designated = some (m, times))
    (hx : x.1 ≠ r) : net.rootPathCost x.1 ≤ m.rootPathCost := by
  obtain ⟨c, hc⟩ := h.exists_rootPort hcosts hr hconnected hx
  have hbest := selectRootPort_spec (b := (net.bridges x.1).reset) rfl
  rw [show (net.bridges x.1).reset.selectRootPort = some c from hc] at hbest
  have hle : c.msg.key ≤ m.key := hbest.key_le (c := ⟨x.2, m, times⟩)
    (mem_candidates.2 ⟨p, hlink.left, hlink.enabled_left, hm⟩)
  obtain ⟨hown, hcost⟩ := h.rootId_eq_of_some hc
  have hroot : m.rootId = c.msg.rootId := by
    rw [h.of_sends hlink.right hlink.enabled_right (h.of_stored hlink hm).2, ← hown,
      h.rootId_eq_lowest hcosts hr hconnected, h.rootId_eq_lowest hcosts hr hconnected]
  simp only [Message.key, pathKey, Prod.Lex.toLex_le_toLex, hroot] at hle
  grind

/-- The costs of two linked bridges differ by the cost of the link at most. -/
theorem rootPathCost_le_of_link (hlink : net.Link x y p q) :
    net.rootPathCost x.1 ≤ net.rootPathCost y.1 + p.pathCost := by
  obtain ⟨hequal, hpos⟩ := hcosts x y p q hlink
  by_cases hq : q.role = .designated
  · obtain ⟨m, times, hm, hsends⟩ := h.stored x y p q hlink hq
    by_cases hx : x.1 = r
    · have hzero := (h.rootId_eq_of_none (h.rootPort_lowest hcosts hr)).2
      have hnonneg := h.rootPathCost_nonneg y.1
      rw [hx, hzero]
      omega
    · have hle := h.rootPathCost_le_of_stored hcosts hr hconnected hlink hm hx
      rw [h.of_sends hlink.right hlink.enabled_right hsends] at hle
      rwa [hequal]
  · have hle := h.rootPathCost_le_of_role_ne hcosts hlink.symm hq
    omega

theorem route_rootPathCost (v : V) : net.Route r v (net.rootPathCost v) := by
  cases hc : net.rootPort v with
  | none =>
    rw [(h.rootId_eq_of_none hc).2, (h.rootPort_eq_none_iff hcosts hr hconnected).1 hc]
    exact .here
  | some c =>
    obtain ⟨y, p, q, hlink, -, -, hsends⟩ := h.exists_uplink hc
    have hlt := h.rootPathCost_lt_of_uplink hcosts hc hlink hsends
    have hnonneg := h.rootPathCost_nonneg y.1
    rw [(h.rootId_eq_of_uplink hc hlink.right hlink.enabled_right hsends).2,
      ← (hcosts _ _ _ _ hlink).1]
    exact .via hlink (route_rootPathCost y.1)
termination_by (net.rootPathCost v).toNat
decreasing_by omega

/-- The cost of a bridge is that of the cheapest way to the root. -/
theorem isLeast_rootPathCost (v : V) :
    IsLeast {cost | net.Route r v cost} (net.rootPathCost v) := by
  refine ⟨h.route_rootPathCost hcosts hr hconnected v, fun cost hroute => ?_⟩
  induction hroute with
  | here => exact (h.rootId_eq_of_none (h.rootPort_lowest hcosts hr)).2.le
  | via hlink _ ih =>
    exact (h.rootPathCost_le_of_link hcosts hr hconnected hlink).trans (by gcongr)

/-! ### One designated end -/

/-- If both ends of a link are designated, each bridge other than the root finds its own path
better. -/
theorem pathKey_lt (hlink : net.Link x y p q) (hp : p.role = .designated)
    (hq : q.role = .designated) (hx : x.1 ≠ r) :
    pathKey (net.rootPathCost x.1) (net.bridges x.1).bridgeId.value
      (PortId.mk p.priority x.2).value <
      pathKey (net.rootPathCost y.1) (net.bridges y.1).bridgeId.value
        (PortId.mk q.priority y.2).value := by
  have hroots := h.rootId_eq_lowest hcosts hr hconnected
  obtain ⟨c, hc⟩ := h.exists_rootPort hcosts hr hconnected hx
  obtain ⟨hroot, hcost⟩ := h.rootId_eq_of_some hc
  obtain ⟨m, times, hm, hsends⟩ := h.stored x y p q hlink hq
  have hrole := h.role_eq hlink.left hlink.enabled_left
  rw [hp, roleOf, show (net.bridges x.1).reset.selectRootPort = some c from hc] at hrole
  have hdesignated : (net.bridges x.1).reset.IsDesignated c.msg x.2 p := by grind
  have hm' := h.of_sends hlink.right hlink.enabled_right hsends
  subst hm'
  have hsuperior := hdesignated _ hm (by rw [← hroot, hroots, hroots])
  rw [compareRootPath_eq_superior, ← hcost] at hsuperior
  have hsender : net.rootPathCost y.1 + q.pathCost - p.pathCost = net.rootPathCost y.1 := by
    have hequal := (hcosts x y p q hlink).1
    omega
  rw [← hsender]
  exact hsuperior

theorem rootPathCost_pos (hv : v ≠ r) : 0 < net.rootPathCost v := by
  obtain ⟨c, hc⟩ := h.exists_rootPort hcosts hr hconnected hv
  obtain ⟨y, p, q, hlink, -, -, hsends⟩ := h.exists_uplink hc
  exact (h.rootPathCost_nonneg y.1).trans_lt (h.rootPathCost_lt_of_uplink hcosts hc hlink hsends)

/-- The root finds no better path than its own. -/
theorem not_pathKey_lt (hv : v ≠ r) {a b a' b' : ℤ} :
    ¬ pathKey (net.rootPathCost v) a b < pathKey (net.rootPathCost r) a' b' := by
  have hpos := h.rootPathCost_pos hcosts hr hconnected hv
  have hzero := (h.rootId_eq_of_none (h.rootPort_lowest hcosts hr)).2
  simp only [pathKey, Prod.Lex.toLex_lt_toLex]
  omega

theorem role_ne_designated (hlink : net.Link x y p q) (hp : p.role = .designated) :
    q.role ≠ .designated := by
  intro hq
  have hxy := h.pathKey_lt hcosts hr hconnected hlink hp hq
  have hyx := h.pathKey_lt hcosts hr hconnected hlink.symm hq hp
  by_cases hx : x.1 = r
  · have hy : y.1 ≠ r := fun hy => net.peer_ne x y hlink.peer (hx.trans hy.symm)
    rw [hx] at hyx
    exact h.not_pathKey_lt hcosts hr hconnected hy (hyx hy)
  · by_cases hy : y.1 = r
    · rw [hy] at hxy
      exact h.not_pathKey_lt hcosts hr hconnected hx (hxy hx)
    · exact lt_asymm (hxy hx) (hyx hy)

/-! ### The tree -/

/-- A link that is not blocked is the link of the root port at one of its ends. -/
theorem isActive_iff (hlink : net.Link x y p q) :
    IsActive p q ↔ p.role = .root ∨ q.role = .root := by
  have hp := h.role_eq_designated_of_root hlink
  have hq := h.role_eq_designated_of_root hlink.symm
  have hdesignated := h.role_ne_designated hcosts hr hconnected hlink
  unfold IsActive
  cases hp' : p.role <;> cases hq' : q.role <;> simp_all

/-- The parent of a bridge is the one where its root port leads. -/
def parents : ParentSystem V where
  root := r
  parent := net.parent
  rank v := (net.rootPathCost v).toNat
  rank_parent := by
    intro v hv
    obtain ⟨c, hc⟩ := h.exists_rootPort hcosts hr hconnected hv
    obtain ⟨y, p, q, hlink, -, -, hsends⟩ := h.exists_uplink hc
    have hlt := h.rootPathCost_lt_of_uplink hcosts hc hlink hsends
    have hnonneg := h.rootPathCost_nonneg y.1
    rw [net.parent_eq hc hlink.peer]
    omega

theorem child_iff {u v : V} : (h.parents hcosts hr hconnected).Child u v ↔
    ∃ x y p q, net.Link x y p q ∧ p.role = .root ∧ x.1 = u ∧ y.1 = v := by
  constructor
  · rintro ⟨hu, rfl⟩
    obtain ⟨c, hc⟩ := h.exists_rootPort hcosts hr hconnected hu
    obtain ⟨y, p, q, hlink, -⟩ := h.exists_uplink hc
    refine ⟨(u, c.portNo), y, p, q, hlink, ?_, rfl, (net.parent_eq hc hlink.peer).symm⟩
    exact (h.role_eq_root_iff hlink.left hlink.enabled_left).2 ⟨c, hc, rfl⟩
  · rintro ⟨x, y, p, q, hlink, hp, rfl, rfl⟩
    obtain ⟨c, hc, hno⟩ := (h.role_eq_root_iff hlink.left hlink.enabled_left).1 hp
    have hpeer : net.peer (x.1, c.portNo) = some y := by
      rw [← hno]
      exact hlink.peer
    refine ⟨fun hroot => ?_, net.parent_eq hc hpeer⟩
    have hnone := (h.rootPort_eq_none_iff hcosts hr hconnected).2 hroot
    rw [hc] at hnone
    cases hnone

theorem activeGraph_eq : net.activeGraph = (h.parents hcosts hr hconnected).graph := by
  ext u v
  change (∃ x y p q, net.Link x y p q ∧ IsActive p q ∧ x.1 = u ∧ y.1 = v) ↔
    (h.parents hcosts hr hconnected).Child u v ∨ (h.parents hcosts hr hconnected).Child v u
  rw [h.child_iff, h.child_iff]
  constructor
  · rintro ⟨x, y, p, q, hlink, hactive, hx, hy⟩
    rcases (h.isActive_iff hcosts hr hconnected hlink).1 hactive with hp | hq
    · exact .inl ⟨x, y, p, q, hlink, hp, hx, hy⟩
    · exact .inr ⟨y, x, q, p, hlink.symm, hq, hy, hx⟩
  · rintro (⟨x, y, p, q, hlink, hp, hx, hy⟩ | ⟨x, y, p, q, hlink, hp, hx, hy⟩)
    · exact ⟨x, y, p, q, hlink, (h.isActive_iff hcosts hr hconnected hlink).2 (.inl hp), hx, hy⟩
    · exact ⟨y, x, q, p, hlink.symm,
        (h.isActive_iff hcosts hr hconnected hlink.symm).2 (.inr hp), hy, hx⟩

/-- Two active links between the same bridges, the first with its root port at `x`. -/
theorem eq_of_root {x' y' : V × ℕ} {p' q' : Port} (hlink : net.Link x y p q) (hp : p.role = .root)
    (hlink' : net.Link x' y' p' q') (hactive : IsActive p' q') (hx : x.1 = x'.1) (hy : y.1 = y'.1) :
    x = x' := by
  rcases (h.isActive_iff hcosts hr hconnected hlink').1 hactive with hp' | hq'
  · obtain ⟨c, hc, hno⟩ := (h.role_eq_root_iff hlink.left hlink.enabled_left).1 hp
    obtain ⟨c', hc', hno'⟩ := (h.role_eq_root_iff hlink'.left hlink'.enabled_left).1 hp'
    rw [← hx, hc] at hc'
    cases hc'
    exact Prod.ext hx (hno.trans hno'.symm)
  · have hup := ((h.child_iff hcosts hr hconnected).2 ⟨x, y, p, q, hlink, hp, rfl, rfl⟩).rank_lt
    have hdown :=
      ((h.child_iff hcosts hr hconnected).2 ⟨y', x', q', p', hlink'.symm, hq', hy.symm,
        hx.symm⟩).rank_lt
    omega

end Lowest

/-- The links that are not blocked are a spanning tree, without parallel links, and the root of
every bridge is the bridge with the lowest identifier. -/
theorem spanningTree [Finite V] (hcosts : net.EqualCosts) (hconnected : net.linkGraph.Connected) :
    net.activeGraph.IsTree ∧
    (∀ x y p q x' y' p' q', net.Link x y p q → IsActive p q → net.Link x' y' p' q' →
      IsActive p' q' → x.1 = x'.1 → y.1 = y'.1 → x = x' ∧ y = y') ∧
    ∃ r, net.IsLowest r ∧ ∀ v, net.rootId v = (net.bridges r).bridgeId := by
  have := hconnected.nonempty
  obtain ⟨r, hr⟩ := Finite.exists_min fun v => (net.bridges v).bridgeId.value
  refine ⟨?_, ?_, r, hr, h.rootId_eq_lowest hcosts hr hconnected⟩
  · rw [h.activeGraph_eq hcosts hr hconnected]
    exact ParentSystem.isTree_graph _
  · intro x y p q x' y' p' q' hlink hactive hlink' hactive' hx hy
    rcases (h.isActive_iff hcosts hr hconnected hlink).1 hactive with hp | hq
    · have hxx' := h.eq_of_root hcosts hr hconnected hlink hp hlink' hactive' hx hy
      subst hxx'
      exact ⟨rfl, some.inj (hlink.peer.symm.trans hlink'.peer)⟩
    · have hyy' := h.eq_of_root hcosts hr hconnected hlink.symm hq hlink'.symm hactive'.symm hy hx
      subst hyy'
      exact ⟨some.inj (hlink.symm.peer.symm.trans hlink'.symm.peer), rfl⟩

end Stable

/-! ### Two bridges with two links -/

def exampleId (v : Fin 2) : BridgeId := ⟨32768, 0, BitVec.ofNat 48 v⟩

def exampleTimes : Times := ⟨0, 20, 2, 15⟩

/-- What bridge 0 sends on its port `n`. -/
def exampleMessage (n : ℕ) : Message := ⟨exampleId 0, 100, exampleId 0, ⟨128, n⟩⟩

def exampleRoot : Fin 2 → Priority
  | 0 => ⟨exampleId 0, 0, none⟩
  | 1 => (exampleMessage 1).priority

def examplePort (v : Fin 2) (n : ℕ) : Port where
  priority := 128
  pathCost := 100
  hwAddr := 0
  configEnable := true
  state := if v = 1 ∧ n = 2 then .block else .forward
  role := if v = 0 then .designated else if n = 1 then .root else .nonDesignated
  designated := if v = 0 then none else some (exampleMessage n, exampleTimes)
  portPriority := exampleRoot v
  portTimes := exampleTimes

def exampleBridge (v : Fin 2) : Bridge where
  bridgeId := exampleId v
  bridgeTimes := exampleTimes
  rootPriority := exampleRoot v
  rootTimes := exampleTimes
  ports := ((∅ : Dict ℕ Port).insert 1 (examplePort v 1)).insert 2 (examplePort v 2)

theorem of_lookup_exampleBridge {v : Fin 2} {n : ℕ} {p : Port}
    (h : (exampleBridge v).ports.lookup n = some p) : (n = 1 ∨ n = 2) ∧ p = examplePort v n := by
  simp only [exampleBridge, Dict.lookup_insert, AList.lookup_empty] at h
  grind

def twoLinks : Network (Fin 2) where
  bridges := exampleBridge
  peer x := if x.2 = 1 ∨ x.2 = 2 then some (1 - x.1, x.2) else none
  peer_symm := by
    rintro ⟨v, n⟩ ⟨v', n'⟩ h
    simp only [ite_none_right_eq_some, some.injEq, Prod.mk.injEq] at h ⊢
    omega
  peer_ne := by
    rintro ⟨v, n⟩ ⟨v', n'⟩ h
    simp only [ite_none_right_eq_some, some.injEq, Prod.mk.injEq] at h ⊢
    omega
  portNo_le := by
    intro v n p h
    rcases (of_lookup_exampleBridge h).1 with rfl | rfl <;> decide
  systemIdExtension_eq_zero _ := rfl
  bridgeId_injective := by
    intro v v' h
    revert v v'
    decide

theorem link_twoLinks {x y : Fin 2 × ℕ} {p q : Port} (h : twoLinks.Link x y p q) :
    (x.2 = 1 ∨ x.2 = 2) ∧ y = (1 - x.1, x.2) ∧ p = examplePort x.1 x.2 ∧
      q = examplePort y.1 y.2 := by
  obtain ⟨hno, hp⟩ := of_lookup_exampleBridge h.left
  have hpeer := h.peer
  simp only [twoLinks, if_pos hno, some.injEq] at hpeer
  exact ⟨hno, hpeer.symm, hp, (of_lookup_exampleBridge h.right).2⟩

theorem sends_twoLinks {n : ℕ} (hno : n = 1 ∨ n = 2) :
    twoLinks.Sends (0, n) (examplePort 0 n) (exampleMessage n) := by
  have hok : ∀ n ∈ [1, 2], ((examplePort 0 n).generateConfigBpdu (exampleId 0) n 0).isOk := by
    decide +kernel
  have hok := hok n (by simpa using hno)
  have hmax : n ≤ maxPortNo := by
    rcases hno with rfl | rfl <;> decide
  cases hdata : (examplePort 0 n).generateConfigBpdu (exampleId 0) n 0 with
  | ok data => exact ⟨0, data, _, hdata, Port.parser_generateConfigBpdu hmax hdata, rfl⟩
  | error e =>
    rw [hdata] at hok
    cases hok

theorem stable_twoLinks : twoLinks.Stable where
  stored := by
    rintro ⟨v, n⟩ y p q hlink hrole
    obtain ⟨hno, rfl, rfl, rfl⟩ := link_twoLinks hlink
    fin_cases v
    · change (if n = 1 then PortRole.root else .nonDesignated) = .designated at hrole
      split at hrole <;> cases hrole
    · exact ⟨exampleMessage n, exampleTimes, rfl, sends_twoLinks hno⟩
  empty := by
    rintro ⟨v, n⟩ p hp henabled hnone
    obtain ⟨hno, rfl⟩ := of_lookup_exampleBridge hp
    fin_cases v
    · rfl
    · have henabled' : (examplePort 0 n).Enabled := by simp [Port.Enabled, examplePort]
      refine absurd rfl (hnone (0, n) (examplePort 0 n) ⟨if_pos hno, hp, ?_, henabled, henabled'⟩)
      rcases hno with rfl | rfl <;> rfl
  role := by
    rintro ⟨v, n⟩ p hp henabled
    obtain ⟨hno, rfl⟩ := of_lookup_exampleBridge hp
    fin_cases v <;> rcases hno with rfl | rfl <;> decide +kernel
  rootPriority := by decide +kernel
  portPriority := by
    rintro ⟨v, n⟩ p hp henabled
    obtain ⟨hno, rfl⟩ := of_lookup_exampleBridge hp
    rfl

theorem equalCosts_twoLinks : twoLinks.EqualCosts := by
  intro x y p q hlink
  obtain ⟨-, -, rfl, rfl⟩ := link_twoLinks hlink
  exact ⟨rfl, by simp [examplePort]⟩

theorem connected_twoLinks : twoLinks.linkGraph.Connected := by
  have hadj : twoLinks.linkGraph.Adj 0 1 :=
    ⟨(0, 1), (1, 1), examplePort 0 1, examplePort 1 1,
      ⟨rfl, rfl, rfl, by decide, by decide⟩, trivial,
      rfl, rfl⟩
  refine ⟨fun u v => ?_⟩
  fin_cases u <;> fin_cases v
  · rfl
  · exact hadj.reachable
  · exact hadj.reachable.symm
  · rfl

theorem isLeast_rootPathCost_twoLinks :
    IsLeast {cost | twoLinks.Route 0 1 cost} (twoLinks.rootPathCost 1) :=
  stable_twoLinks.isLeast_rootPathCost equalCosts_twoLinks
    (fun v => by fin_cases v <;> decide) connected_twoLinks 1

/-- One of two parallel links is blocked. -/
theorem spanningTree_twoLinks : twoLinks.activeGraph.IsTree ∧
    (examplePort 1 2).role = .nonDesignated ∧
    ∃ r, twoLinks.IsLowest r ∧ ∀ v, twoLinks.rootId v = (exampleBridge r).bridgeId := by
  obtain ⟨htree, -, hroot⟩ := stable_twoLinks.spanningTree equalCosts_twoLinks connected_twoLinks
  exact ⟨htree, rfl, hroot⟩

end Network

end BebaCtrl.Stp
