import Mathlib.Data.List.Perm.Basic
import BebaCtrl.Controller.DpSet

/-!
# The topology application

`Switches` keeps the connected switches with their ports, and discovers links: an LLDP packet sent
out of a port and received on a port of another switch shows a link from the one to the other. Each
link is kept with the time it was last seen, and each source port with the port it was last seen to
reach.

Green threads switch only where a call blocks, so each handler and each pass of `link_loop` runs to
its end before another one starts. What is sent to the switches is left out.

An exception in a handler ends the thread of `_event_loop`, and the application handles no event
after it. The runs here go on with the next input, and so are more than those of the code.
-/

namespace BebaCtrl.Switches

open List PyM AList Dict

/-! ### Ports, switches and links -/

/-- What two `Port` objects are compared by. -/
structure PortId where
  dpid : Nat
  portNo : Nat
  deriving DecidableEq, Repr

/-- `Port(dpid, ofproto, ofpport)`, where the version stands for its constants. -/
structure Port where
  dpid : Nat
  version : Nat
  desc : OfpPort
  deriving DecidableEq, Repr

namespace Port

def id (p : Port) : PortId := ⟨p.dpid, p.desc.portNo⟩

/-- `OFPP_MAX` -/
def ofppMax (version : Nat) : Nat := if version = 1 then 0xff00 else 0xffffff00

def isReserved (p : Port) : Bool := ofppMax p.version < p.desc.portNo

/-- `OFPPS_LINK_DOWN` and `OFPPC_PORT_DOWN` are the lowest bit in every version. -/
def isDown (p : Port) : Bool := 0 < p.desc.state &&& 1 || 0 < p.desc.config &&& 1

end Port

structure Switch where
  dp : Connection
  ports : List Port
  deriving DecidableEq, Repr

structure Link where
  src : PortId
  dst : PortId
  deriving DecidableEq, Repr

structure Host where
  mac : String
  port : PortId
  ipv4 : List String := []
  ipv6 : List String := []
  deriving DecidableEq, Repr

/-! ### `PortDataState` -/

structure PortData where
  isDown : Bool
  timestamp : Option Rat := none
  /-- the LLDP packets sent since one was received -/
  sent : Nat := 0
  deriving DecidableEq, Repr

/-- The dictionary with its linked list of keys: the entries stand in the order of the list. -/
abbrev PortDataState : Type := Dict PortId PortData

namespace PortDataState

/-- `_move_last_key`, with the data the key has then. -/
def moveLast (s : PortDataState) (port : PortId) (data : PortData) : PortDataState where
  entries := s.entries.kerase port ++ [⟨port, data⟩]
  nodupKeys := by
    have h : (⟨port, data⟩ :: s.entries.kerase port).NodupKeys := (s.insert port data).nodupKeys
    exact (perm_nodupKeys (perm_append_singleton _ _).symm).1 h

def addPort (s : PortDataState) (port : PortId) (isDown : Bool) : PortDataState :=
  match s.lookup port with
  | none => s.insert port { isDown := isDown }
  | some data => s.replace port { data with isDown := isDown }

def lldpSent (s : PortDataState) (port : PortId) (now : Rat) : PyResult PortDataState := do
  let data ← s.getItem port
  return s.moveLast port { data with timestamp := some now, sent := data.sent + 1 }

def lldpReceived (s : PortDataState) (port : PortId) : PyResult PortDataState := do
  let data ← s.getItem port
  return s.replace port { data with sent := 0 }

def moveFront (s : PortDataState) (port : PortId) : PortDataState :=
  match s.lookup port with
  | none => s
  | some data => s.insert port { data with timestamp := none }

def setDown (s : PortDataState) (port : PortId) (isDown : Bool) : PyResult PortDataState := do
  let data ← s.getItem port
  let data := { data with isDown := isDown, timestamp := none }
  return if isDown then s.replace port data else s.insert port data

end PortDataState

/-! ### `LinkState` -/

structure LinkState where
  timestamps : Dict Link Rat := ∅
  map : Dict PortId PortId := ∅

namespace LinkState

def getPeer (s : LinkState) (src : PortId) : Option PortId := s.map.lookup src

/-- The second value is whether the reverse link is also up. -/
def updateLink (s : LinkState) (src dst : PortId) (now : Rat) : LinkState × Bool :=
  let timestamps := s.timestamps.insert ⟨src, dst⟩ now
  ({ timestamps := timestamps, map := s.map.insert src dst }, ⟨dst, src⟩ ∈ timestamps)

def linkDown (link : Link) : PyM LinkState Unit := do
  let timestamps ← (← get).timestamps.delItem link
  modify fun s => { s with timestamps := timestamps }
  let map ← (← get).map.delItem link.src
  modify fun s => { s with map := map }

def revLinkSetTimestamp (s : LinkState) (revLink : Link) (timestamp : Rat) : LinkState :=
  if revLink ∈ s.timestamps then
    { s with timestamps := s.timestamps.replace revLink timestamp }
  else s

/-- What `port_deleted` does when the port has a peer. -/
def popPeer (src dst : PortId) : PyM LinkState (PortId × Option PortId) := do
  linkDown ⟨src, dst⟩
  let s ← get
  set { timestamps := s.timestamps.erase ⟨dst, src⟩, map := s.map.erase dst : LinkState }
  return (dst, s.map.lookup dst)

def portDeleted (src : PortId) : PyM LinkState (PortId × Option PortId) := do
  match (← get).getPeer src with
  | none => throw .keyError
  | some dst => popPeer src dst

end LinkState

/-! ### The application -/

/-- The events the application sends. -/
inductive Event where
  | switchEnter (switch : Option Switch)
  | switchLeave (switch : Option Switch)
  | portAdd (port : Port)
  | portDelete (port : Port)
  | portModify (port : Port)
  | linkAdd (link : Link)
  | linkDelete (link : Link)
  | hostAdd (host : Host)
  deriving DecidableEq, Repr

structure State where
  dps : Dict Nat Connection := ∅
  portState : Dict Nat PortState := ∅
  ports : PortDataState := ∅
  links : LinkState := {}
  hosts : Dict String Host := ∅
  /-- the events sent to the observers -/
  sent : List Event := []

namespace State

def send (s : State) (ev : Event) : State := { s with sent := s.sent ++ [ev] }

def isEdgePort (s : State) (port : PortId) : Bool :=
  s.links.timestamps.keys.all fun link => port ≠ link.src ∧ port ≠ link.dst

/-- The port objects are built with `dp.id`, the key the connection is stored under. -/
def getSwitch (s : State) (dpid : Nat) : PyResult (Option Switch) :=
  match s.dps.lookup dpid with
  | none => .ok none
  | some dp => do
    let ports ← s.portState.getItem dpid
    return some ⟨dp, (ports.values.map (Port.mk dpid dp.version)).filter (!·.isReserved)⟩

def getPort (s : State) (dpid portNo : Nat) : PyResult (Option Port) := do
  match ← s.getSwitch dpid with
  | none => return none
  | some switch => return switch.ports.find? (·.desc.portNo = portNo)

def portAdded (s : State) (port : Port) : State :=
  { s with ports := s.ports.addPort port.id port.isDown }

/-- `_link_down`; `port_deleted` raises nothing but `KeyError`. -/
def linkDown (s : State) (port : PortId) : State :=
  match LinkState.portDeleted port s.links with
  | (.error _, links) => { s with links := links }
  | (.ok (dst, revLinkDst), links) =>
    let s := { s with links := links }.send (.linkDelete ⟨port, dst⟩)
    let s := match revLinkDst with
      | none => s
      | some revLinkDst => s.send (.linkDelete ⟨dst, revLinkDst⟩)
    { s with ports := s.ports.moveFront dst }

end State

def register (dp : Connection) : PyM State Unit :=
  match dp.id with
  | none => throw .assertionError
  | some dpid => modify fun s => { s with
      dps := s.dps.insert dpid dp
      portState := if dpid ∈ s.portState then s.portState
        else s.portState.insert dpid (dp.ports.foldl PortState.add .empty) }

def unregister (dpid : Nat) : PyM State Unit := do
  if dpid ∈ (← get).dps then
    modify fun s => { s with dps := s.dps.erase dpid }
    let portState ← (← get).portState.delItem dpid
    modify fun s => { s with portState := portState }
  else pure ()

/-! ### Connections -/

/-- The body of the loop over the ports of a switch that has left. -/
def removePort (port : Port) : PyM State Unit := do
  let ports ← (← get).ports.delItem port.id
  modify fun s => { s with ports := ports }.linkDown port.id

section

variable (linkDiscovery : Bool)

def mainHandler (dp : Connection) (dpid : Nat) : PyM State Unit := do
  let dpMultipleConns := decide (dpid ∈ (← get).dps)
  register dp
  let switch ← (← get).getSwitch dpid
  if dpMultipleConns then pure ()
  else
    modify (·.send (.switchEnter switch))
    if linkDiscovery then
      match switch with
      | none => throw .attributeError
      | some switch => switch.ports.forM fun port => modify (·.portAdded port)
    else pure ()

def deadHandler (dpid : Nat) : PyM State Unit := do
  let switch ← (← get).getSwitch dpid
  unregister dpid
  modify (·.send (.switchLeave switch))
  if linkDiscovery then
    match switch with
    | none => throw .attributeError
    | some switch => switch.ports.forM removePort
  else pure ()

/-- In both branches the ports of a switch are not reserved: `Switch.add_port` has left the others
out. -/
def stateChangeHandler : StateChange → PyM State Unit
  | .main dp =>
    match dp.id with
    | none => throw .assertionError
    | some dpid => mainHandler linkDiscovery dp dpid
  | .dead dp =>
    match dp.id with
    | none => pure ()
    | some dpid => deadHandler linkDiscovery dpid

/-! ### Port status -/

inductive PortReason where
  | add
  | delete
  | modify
  | other
  deriving DecidableEq, Repr

/-- What the three reasons have in common: `update` is done to the ports of the switch, `ev` is the
event sent, and `act` is what is done if links are observed and the port is found then. -/
def portChange (update : PortState → PyResult PortState) (ev : Port → Event)
    (act : Port → PyM State Unit) (dpid version : Nat) (desc : OfpPort) : PyM State Unit := do
  let ports ← (← get).portState.getItem dpid
  let ports ← update ports
  modify fun s => { s with portState := s.portState.insert dpid ports }
  modify (·.send (ev ⟨dpid, version, desc⟩))
  if linkDiscovery then
    match ← (← get).getPort dpid desc.portNo with
    | none => pure ()
    | some port => act port
  else pure ()

/-- `set_down`, and `_link_down` if the port is down. -/
def setDown (port : Port) : PyM State Unit := do
  let ports ← (← get).ports.setDown port.id port.isDown
  modify fun s => { s with ports := ports }
  if port.isDown then modify (·.linkDown port.id) else pure ()

def portAddHandler (dpid version : Nat) (desc : OfpPort) : PyM State Unit :=
  portChange linkDiscovery (fun ports => .ok (ports.add desc)) .portAdd
    (fun port => modify (·.portAdded port)) dpid version desc

def portDeleteHandler (dpid version : Nat) (desc : OfpPort) : PyM State Unit :=
  portChange linkDiscovery (·.remove desc.portNo) .portDelete removePort dpid version desc

def portModifyHandler (dpid version : Nat) (desc : OfpPort) : PyM State Unit :=
  portChange linkDiscovery (fun ports => .ok (ports.add desc)) .portModify setDown dpid version desc

def portStatusHandler (dpid version : Nat) (reason : PortReason) (desc : OfpPort) :
    PyM State Unit :=
  match reason with
  | .add => portAddHandler linkDiscovery dpid version desc
  | .delete => portDeleteHandler linkDiscovery dpid version desc
  | .modify => portModifyHandler linkDiscovery dpid version desc
  | .other => throw .assertionError

/-! ### Packets -/

/-- The hosts are removed whose port is the end of a link. -/
def State.removeHosts (s : State) : State :=
  let remove (hosts : Dict String Host) (host : Host) : Dict String Host :=
    if s.isEdgePort host.port then hosts else hosts.erase host.mac
  { s with hosts := s.hosts.values.foldl remove s.hosts }

/-- The port `src` was seen to reach a port other than `dst` before. -/
def State.losePeer (s : State) (src dst : PortId) : State :=
  match s.links.getPeer src with
  | none => s
  | some oldPeer => if oldPeer = dst then s else s.send (.linkDelete ⟨src, oldPeer⟩)

def State.addLink (s : State) (link : Link) : State :=
  if link ∈ s.links.timestamps then s else (s.send (.linkAdd link)).removeHosts

def State.updateLink (s : State) (src dst : PortId) (now : Rat) : State :=
  let (links, revUp) := s.links.updateLink src dst now
  let s := { s with links := links }
  -- the reverse link is not detected yet
  if revUp then s else { s with ports := s.ports.moveFront dst }

/-- What an LLDP packet sent by the port `src` and received by the port `dst` does. -/
def State.discover (s : State) (src dst : PortId) (now : Rat) : State :=
  ((s.losePeer src dst).addLink ⟨src, dst⟩).updateLink src dst now

/-- The reception of a packet of the port `src`; the ports are kept if the source is not there. -/
def State.lldpReceived (s : State) (src : PortId) : State :=
  match s.ports.lldpReceived src with
  | .ok ports => { s with ports := ports }
  | .error _ => s

/-- What `lldp_packet_in_handler` does with an LLDP packet that names the port `srcPortNo` of the
switch `srcDpid` and was received by the port `inPort` of the switch `dpid`. -/
def receiveLldp (srcDpid srcPortNo dpid version inPort : Nat) (now : Rat) : PyM State Unit := do
  match ← (← get).getPort srcDpid srcPortNo with
  | none => pure ()
  | some src =>
    if src.dpid = dpid then pure ()
    else
      modify (·.lldpReceived src.id)
      -- `dst_port_no` has a value in OpenFlow 1.0 and from 1.2 on
      if version = 1 ∨ 3 ≤ version then
        match ← (← get).getPort dpid inPort with
        | none => pure ()
        | some dst => modify (·.discover src.id dst.id now)
      else throw (.other "UnboundLocalError")

/-- `lldp` is what `LLDPPacket.lldp_parse` gives for the packet: the datapath id and port number it
names, or nothing if it raises `LLDPUnknownFormat`. -/
def lldpPacketInHandler (dpid version inPort : Nat) (lldp : PyResult (Option (Nat × Nat)))
    (now : Rat) : PyM State Unit := do
  if linkDiscovery then
    match ← lldp with
    | none => pure ()
    | some (srcDpid, srcPortNo) => receiveLldp srcDpid srcPortNo dpid version inPort now
  else pure ()

/-- The address of its sender that a packet shows. -/
inductive HostAddr where
  | none
  | ipv4 (addr : String)
  | ipv6 (addr : String)
  deriving DecidableEq, Repr

/-- `HostState.update_ip` -/
def updateIp (hosts : Dict String Host) (mac : String) (addr : HostAddr) : Dict String Host :=
  match hosts.lookup mac, addr with
  | some host, .ipv4 a => hosts.replace mac
      { host with ipv4 := if a ∈ host.ipv4 then host.ipv4 else host.ipv4 ++ [a] }
  | some host, .ipv6 a => hosts.replace mac
      { host with ipv6 := if a ∈ host.ipv6 then host.ipv6 else host.ipv6 ++ [a] }
  | _, _ => hosts

def addHost (mac : String) (port : PortId) : PyM State Unit := do
  if mac ∈ (← get).hosts then pure ()
  else
    modify fun s => { s with hosts := s.hosts.insert mac { mac := mac, port := port } }
    modify (·.send (.hostAdd { mac := mac, port := port }))

/-- `frame` is the source address of an Ethernet frame that is not LLDP; `addr` is read after the
host has been added. -/
def hostDiscoveryPacketInHandler (dpid inPort : Nat) (frame : PyResult (Option String))
    (addr : PyResult HostAddr) : PyM State Unit := do
  match ← frame with
  | none => pure ()
  | some mac =>
    match ← (← get).getPort dpid inPort with
    | none => pure ()
    | some port =>
      if (← get).isEdgePort port.id then
        addHost mac port.id
        let addr ← addr
        modify fun s => { s with hosts := updateIp s.hosts mac addr }
      else pure ()

/-! ### The loops -/

/-- `send_lldp_packet`: what the loop that sends LLDP packets does with one port. -/
def State.sendLldpPacket (s : State) (port : PortId) (now : Rat) : State :=
  match s.ports.lldpSent port now with
  | .ok ports => { s with ports := ports }
  | .error _ => s

def linkTimeout : Rat := 10

def linkLldpDrop : Nat := 5

/-- The links of which no packet was received for too long. -/
def State.timedOut (s : State) (now : Rat) : List Link :=
  (s.links.timestamps.entries.filter fun entry =>
    entry.2 + linkTimeout < now ∧
      (s.ports.lookup entry.1.src).any fun data => linkLldpDrop < data.sent).map Sigma.fst

/-- The links of the state are written by `m`. -/
def onLinks (m : PyM LinkState Unit) : PyM State Unit := fun s =>
  ((m s.links).1, { s with links := (m s.links).2 })

def State.checkReverse (s : State) (link : Link) (now : Rat) : State :=
  { s with
    links := s.links.revLinkSetTimestamp ⟨link.dst, link.src⟩ (now - linkTimeout)
    ports := s.ports.moveFront link.dst }

/-- The body of the loop over the links that timed out. -/
def deleteLink (deleted : List Link) (now : Rat) (link : Link) : PyM State Unit := do
  onLinks (LinkState.linkDown link)
  modify (·.send (.linkDelete link))
  if ⟨link.dst, link.src⟩ ∈ deleted then pure () else modify (·.checkReverse link now)

/-- One pass of `link_loop`. -/
def linkCheck (now : Rat) : PyM State Unit := do
  let deleted := (← get).timedOut now
  deleted.forM (deleteLink deleted now)

/-! ### Runs -/

/-- What can happen to the application. -/
inductive Input where
  | stateChange (change : StateChange)
  | portStatus (dpid version : Nat) (reason : PortReason) (desc : OfpPort)
  | lldpPacketIn (dpid version inPort : Nat) (lldp : PyResult (Option (Nat × Nat))) (now : Rat)
  | hostPacketIn (dpid inPort : Nat) (frame : PyResult (Option String)) (addr : PyResult HostAddr)
  | sendLldp (port : PortId) (now : Rat)
  | linkCheck (now : Rat)

def handle : Input → PyM State Unit
  | .stateChange change => stateChangeHandler linkDiscovery change
  | .portStatus dpid version reason desc =>
    portStatusHandler linkDiscovery dpid version reason desc
  | .lldpPacketIn dpid version inPort lldp now =>
    lldpPacketInHandler linkDiscovery dpid version inPort lldp now
  | .hostPacketIn dpid inPort frame addr => hostDiscoveryPacketInHandler dpid inPort frame addr
  | .sendLldp port now => modify (·.sendLldpPacket port now)
  | .linkCheck now => linkCheck now

/-- The state after a run. An exception ends a handler, leaves the state as it is and, other than in
the code, does not keep the later inputs from being handled. -/
def run (inputs : List Input) : State :=
  inputs.foldl (fun s input => (handle linkDiscovery input s).2) {}

end

/-! ### What the parts of the handlers change -/

section Frames

variable {s : State} {dpid : Nat} {dp : Connection} {port src dst k : PortId} {now : Rat}

@[simp] theorem PortDataState.mem_moveFront {s : PortDataState} : k ∈ s.moveFront port ↔ k ∈ s := by
  unfold moveFront
  cases h : AList.lookup port s with
  | none => rfl
  | some data =>
    simp only [mem_insert, or_iff_right_iff_imp]
    rintro rfl
    exact mem_of_lookup h

@[simp] theorem PortDataState.mem_addPort {s : PortDataState} {isDown : Bool} :
    k ∈ s.addPort port isDown ↔ k = port ∨ k ∈ s := by
  unfold addPort
  cases h : AList.lookup port s with
  | none => exact mem_insert s
  | some data =>
    simp only [mem_replace, iff_or_self]
    rintro rfl
    exact mem_of_lookup h

namespace State

@[simp] theorem linkDown_dps : (s.linkDown port).dps = s.dps := by
  unfold linkDown
  split
  · rfl
  · split <;> rfl

@[simp] theorem linkDown_portState : (s.linkDown port).portState = s.portState := by
  unfold linkDown
  split
  · rfl
  · split <;> rfl

@[simp] theorem mem_linkDown_ports : k ∈ (s.linkDown port).ports ↔ k ∈ s.ports := by
  unfold linkDown
  split
  · rfl
  · split <;> simp [send]

/-- The ports of a registered switch that are not reserved. -/
def switchPorts (dpid : Nat) (dp : Connection) (ports : PortState) : List Port :=
  (ports.values.map (Port.mk dpid dp.version)).filter (!·.isReserved)

theorem dpid_of_mem_switchPorts {ports : PortState} {p : Port}
    (h : p ∈ switchPorts dpid dp ports) : p.id.dpid = dpid := by
  obtain ⟨desc, -, rfl⟩ := mem_map.1 (mem_filter.1 h).1
  rfl

theorem nodup_switchPorts {ports : PortState} :
    ((switchPorts dpid dp ports).map Port.id).Nodup := by
  have hsub : ((switchPorts dpid dp ports).map Port.id).Sublist
      ((ports.values.map (Port.mk dpid dp.version)).map Port.id) := filter_sublist.map Port.id
  refine List.Nodup.sublist hsub ?_
  rw [map_map]
  have hmap : ports.values.map (Port.id ∘ Port.mk dpid dp.version) =
      (ports.values.map OfpPort.portNo).map (PortId.mk dpid) := by simp [Port.id]
  rw [hmap]
  exact ports.nodup_portNo_values.map fun _ _ h => (PortId.mk.inj h).2

/-- Every datapath id with a connection has port states, and no other one has. -/
def SameKeys (s : State) : Prop := Dict.SameKeys s.portState s.dps

theorem getSwitch_of_notMem (h : dpid ∉ s.dps) : s.getSwitch dpid = .ok none := by
  rw [getSwitch, lookup_eq_none.2 h]

theorem getSwitch_of_lookup {ports : PortState} (hdp : s.dps.lookup dpid = some dp)
    (hports : s.portState.lookup dpid = some ports) :
    s.getSwitch dpid = .ok (some ⟨dp, switchPorts dpid dp ports⟩) := by
  rw [getSwitch, hdp]
  rw [getItem_of_lookup hports]
  rfl

end State

theorem unregister_apply (hkeys : s.SameKeys) : unregister dpid s =
    (.ok (), { s with dps := s.dps.erase dpid, portState := s.portState.erase dpid }) := by
  rw [unregister, get_bind]
  by_cases h : dpid ∈ s.dps
  · rw [if_pos h, modify_bind, get_bind,
      lift_bind_of_ok (delItem_of_mem ((hkeys dpid).2 h))]
    rfl
  · rw [if_neg h, erase_of_notMem h, erase_of_notMem (mt (hkeys dpid).1 h)]
    rfl

/-- What `removePort` does to the state if the port is found. -/
def State.removePort (s : State) (port : PortId) : State :=
  { s with ports := s.ports.erase port }.linkDown port

private theorem takeWhile_congr {α : Type} {p q : α → Bool} {xs : List α}
    (h : ∀ x ∈ xs, p x = q x) : xs.takeWhile p = xs.takeWhile q := by
  induction xs with
  | nil => rfl
  | cons x xs ih => simp [takeWhile_cons, h x, ih fun y hy => h y (mem_cons_of_mem x hy)]

/-- The ports of a switch are removed one after the other, up to one that is not in `ports`. -/
theorem forM_removePort {removed : List Port} (hnodup : (removed.map Port.id).Nodup) :
    removed.forM removePort s =
      (if ∀ p ∈ removed, p.id ∈ s.ports then .ok () else .error .keyError,
        ((removed.takeWhile fun p => p.id ∈ s.ports).map Port.id).foldl State.removePort s) := by
  induction removed generalizing s with
  | nil => rfl
  | cons p removed ih =>
    obtain ⟨hnot, hnodup⟩ := nodup_cons.1 hnodup
    by_cases hp : p.id ∈ s.ports
    · have hstep : removePort p s = (.ok (), s.removePort p.id) := by
        rw [removePort, get_bind, lift_bind_of_ok (delItem_of_mem hp)]
        rfl
      have hmem : ∀ q ∈ removed, q.id ∈ (s.removePort p.id).ports ↔ q.id ∈ s.ports := by
        intro q hq
        simp only [State.removePort, State.mem_linkDown_ports, mem_erase, and_iff_right_iff_imp]
        rintro - heq
        exact hnot (heq ▸ mem_map_of_mem hq)
      have htake : (removed.takeWhile fun q => q.id ∈ (s.removePort p.id).ports) =
          removed.takeWhile fun q => q.id ∈ s.ports := by
        exact takeWhile_congr fun q hq => by rw [decide_eq_decide, hmem q hq]
      rw [forM_cons_of_ok hstep, ih hnodup, htake]
      simp [hp, forall₂_congr hmem]
    · have hstep : removePort p s = (.error .keyError, s) := by
        rw [removePort, get_bind, delItem_of_notMem hp]
        rfl
      rw [forM_cons_of_error hstep]
      simp [hp]

/-! ### What the handlers of the state changes do -/

variable {linkDiscovery : Bool}

/-- The state after the first connection of a switch has reached MAIN. -/
def State.enter (s : State) (linkDiscovery : Bool) (dpid : Nat) (dp : Connection) : State :=
  let ports := dp.ports.foldl PortState.add .empty
  let added := State.switchPorts dpid dp ports
  { s with
    dps := s.dps.insert dpid dp
    portState := s.portState.insert dpid ports
    sent := s.sent ++ [.switchEnter (some ⟨dp, added⟩)]
    ports := if linkDiscovery then added.foldl (fun d p => d.addPort p.id p.isDown) s.ports
      else s.ports }

theorem foldl_portAdded (added : List Port) (s : State) : added.foldl State.portAdded s =
    { s with ports := added.foldl (fun d p => d.addPort p.id p.isDown) s.ports } := by
  induction added generalizing s with
  | nil => rfl
  | cons p added ih => exact ih _

theorem mem_foldl_addPort {added : List Port} {d : PortDataState} :
    k ∈ added.foldl (fun d p => d.addPort p.id p.isDown) d ↔ k ∈ added.map Port.id ∨ k ∈ d := by
  induction added generalizing d with
  | nil => simp
  | cons p added ih =>
    rw [foldl_cons, ih, PortDataState.mem_addPort, map_cons, mem_cons]
    grind

theorem mainHandler_of_mem (hkeys : s.SameKeys) (hid : dp.id = some dpid) (h : dpid ∈ s.dps) :
    mainHandler linkDiscovery dp dpid s = (.ok (), { s with dps := s.dps.insert dpid dp }) := by
  have hmem := (hkeys dpid).2 h
  obtain ⟨ports, hports⟩ := mem_iff_lookup.1 hmem
  have hregister : register dp s = (.ok (), { s with dps := s.dps.insert dpid dp }) := by
    rw [register, hid]
    exact (modify_apply _ _).trans (by rw [if_pos hmem])
  have hswitch := State.getSwitch_of_lookup (s := { s with dps := s.dps.insert dpid dp })
    (lookup_insert s.dps) hports
  rw [mainHandler, get_bind, bind_of_ok hregister,
    get_bind, lift_bind_of_ok hswitch, if_pos (decide_eq_true h)]
  rfl

theorem mainHandler_of_notMem (hkeys : s.SameKeys) (hid : dp.id = some dpid) (h : dpid ∉ s.dps) :
    mainHandler linkDiscovery dp dpid s = (.ok (), s.enter linkDiscovery dpid dp) := by
  have hmem := mt (hkeys dpid).1 h
  let s₁ : State := { s with
    dps := s.dps.insert dpid dp
    portState := s.portState.insert dpid (dp.ports.foldl PortState.add .empty) }
  have hregister : register dp s = (.ok (), s₁) := by
    rw [register, hid]
    exact (modify_apply _ _).trans (by rw [if_neg hmem])
  have hswitch := State.getSwitch_of_lookup (s := s₁) (lookup_insert s.dps)
    (lookup_insert s.portState)
  rw [mainHandler, get_bind, bind_of_ok hregister, get_bind,
    lift_bind_of_ok hswitch, if_neg (by simpa using h), modify_bind]
  cases linkDiscovery with
  | false => rfl
  | true => exact (forM_of_ok (fun _ _ => rfl) _ _).trans (by rw [foldl_portAdded]; rfl)

/-- The state in which the ports of a switch are removed. -/
def State.leave (s : State) (dpid : Nat) (switch : Option Switch) : State :=
  { s with
    dps := s.dps.erase dpid
    portState := s.portState.erase dpid
    sent := s.sent ++ [.switchLeave switch] }

theorem deadHandler_of_notMem (hkeys : s.SameKeys) (h : dpid ∉ s.dps) :
    deadHandler linkDiscovery dpid s =
      (if linkDiscovery then .error .attributeError else .ok (), s.leave dpid none) := by
  rw [deadHandler, get_bind, lift_bind_of_ok (State.getSwitch_of_notMem h),
    bind_of_ok (unregister_apply hkeys), modify_bind]
  cases linkDiscovery <;> rfl

/-- The ports whose links the death of a connection takes down. -/
def State.leavingPorts (s : State) (dpid : Nat) (dp : Connection) (ports : PortState) :
    List PortId :=
  ((switchPorts dpid dp ports).takeWhile fun p => p.id ∈ s.ports).map Port.id

theorem dpid_of_mem_leavingPorts {ports : PortState} {p : PortId}
    (h : p ∈ s.leavingPorts dpid dp ports) : p.dpid = dpid := by
  obtain ⟨q, hq, rfl⟩ := mem_map.1 h
  exact State.dpid_of_mem_switchPorts (takeWhile_subset _ hq)

theorem deadHandler_of_lookup {ports : PortState} (hkeys : s.SameKeys)
    (hdp : s.dps.lookup dpid = some dp) (hports : s.portState.lookup dpid = some ports) :
    deadHandler linkDiscovery dpid s =
      let s' := s.leave dpid (some ⟨dp, State.switchPorts dpid dp ports⟩)
      if linkDiscovery then
        (if ∀ p ∈ State.switchPorts dpid dp ports, p.id ∈ s.ports then .ok ()
          else .error .keyError, (s.leavingPorts dpid dp ports).foldl State.removePort s')
      else (.ok (), s') := by
  rw [deadHandler, get_bind, lift_bind_of_ok (State.getSwitch_of_lookup hdp hports),
    bind_of_ok (unregister_apply hkeys), modify_bind]
  cases linkDiscovery with
  | false => rfl
  | true => exact forM_removePort State.nodup_switchPorts

end Frames

end BebaCtrl.Switches
