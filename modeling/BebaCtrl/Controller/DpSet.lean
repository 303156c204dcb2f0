import BebaCtrl.Lib.Dict
import BebaCtrl.Lib.History
import BebaCtrl.Lib.Presence
import BebaCtrl.Lib.State

/-!
# The set of connected datapaths

`DPSet` is told of every connection that reaches the state MAIN and of every connection that dies. A
switch may connect again before the loss of its old connection is noticed: the new connection then
takes the place of the old one, the port states are kept, and observers see `EventDPReconnected`
instead of a leave and an enter event.

The connections are in `dps`, the ports in `port_state`. An enter event is sent when a datapath id
is missing from the one, a leave event when a connection is found in the other.
-/

namespace BebaCtrl

open List PyM Dict

/-- What the handlers read of an `OFPPort`. -/
structure OfpPort where
  portNo : Nat
  config : Nat
  state : Nat
  deriving DecidableEq, Repr

/-- A `Datapath` object. Two of them are equal only if they are the same object: `serial` tells the
connections of one switch apart. The id is unknown until the Features Reply; `ports` are the values
of `dp.ports` when the connection reaches MAIN. -/
structure Connection where
  serial : Nat
  id : Option Nat
  version : Nat
  ports : List OfpPort
  deriving DecidableEq, Repr

/-- `EventOFPStateChange`, for the two states the applications observe. -/
inductive StateChange where
  | main (dp : Connection)
  | dead (dp : Connection)
  deriving DecidableEq, Repr

/-! ### Ports -/

/-- `PortState`: every port is stored under its own number. -/
structure PortState where
  ports : Dict Nat OfpPort
  portNo_eq : ∀ no port, ports.lookup no = some port → port.portNo = no

namespace PortState

def empty : PortState where
  ports := ∅
  portNo_eq := by simp

/-- `add(port.port_no, port)` and `modify(port.port_no, port)` -/
def add (s : PortState) (port : OfpPort) : PortState where
  ports := s.ports.insert port.portNo port
  portNo_eq := by
    intro no p h
    rw [lookup_insert] at h
    split at h
    next heq => rw [← Option.some.inj h, heq]
    next => exact s.portNo_eq no p h

def erase (s : PortState) (no : Nat) : PortState where
  ports := s.ports.erase no
  portNo_eq := by
    intro k p h
    rw [lookup_erase] at h
    split at h
    · cases h
    · exact s.portNo_eq k p h

def remove (s : PortState) (no : Nat) : PyResult PortState :=
  if no ∈ s.ports then .ok (s.erase no) else .error .keyError

variable {s : PortState}

theorem remove_of_mem {no : Nat} (h : no ∈ s.ports) :
    s.remove no = .ok (s.erase no) := if_pos h

def values (s : PortState) : List OfpPort := s.ports.values

theorem mem_values {port : OfpPort} :
    port ∈ s.values ↔ s.ports.lookup port.portNo = some port := by
  rw [values, Dict.mem_values]
  constructor
  · rintro ⟨no, h⟩
    rwa [s.portNo_eq no port h]
  · intro h
    exact ⟨_, h⟩

theorem map_portNo_values (s : PortState) : s.values.map OfpPort.portNo = s.ports.keys := by
  rw [values, Dict.values, AList.keys, keys, map_map]
  refine map_congr_left ?_
  rintro ⟨no, port⟩ h
  exact s.portNo_eq no port (mem_entries.1 h)

theorem nodup_portNo_values (s : PortState) : (s.values.map OfpPort.portNo).Nodup := by
  rw [map_portNo_values]
  exact s.ports.keys_nodup

end PortState

namespace DpSet

/-! ### The application -/

/-- `EventDP` and `EventDPReconnected` -/
inductive Event where
  | dp (dp : Connection) (enter : Bool) (ports : List OfpPort)
  | reconnected (dp : Connection)
  deriving DecidableEq, Repr

structure State where
  dps : Dict Nat Connection := ∅
  portState : Dict Nat PortState := ∅
  /-- the connections that were closed -/
  closed : List Connection := []
  /-- the events sent to the observers -/
  sent : List Event := []

def sendEventToObservers (ev : Event) : PyM State Unit :=
  modify fun s => { s with sent := s.sent ++ [ev] }

def portAdded (dpid : Nat) (port : OfpPort) : PyM State Unit := do
  let ports ← (← get).portState.getItem dpid
  modify fun s => { s with portState := s.portState.insert dpid (ports.add port) }

def portDeleted (dpid : Nat) (port : OfpPort) : PyM State Unit := do
  let ports ← (← get).portState.getItem dpid
  let ports ← ports.remove port.portNo
  modify fun s => { s with portState := s.portState.insert dpid ports }

/-- What `_register` does with an older connection of the datapath id. -/
def closeOld (dpid : Nat) : PyM State Unit := do
  match (← get).dps.lookup dpid with
  | some old => modify fun s => { s with closed := s.closed ++ [old] }
  | none => pure ()

/-- What `_register` does when the datapath id has no port states. -/
def enter (dpid : Nat) (dp : Connection) : PyM State Unit := do
  modify fun s => { s with portState := s.portState.insert dpid .empty }
  dp.ports.forM (portAdded dpid)
  sendEventToObservers (.dp dp true dp.ports)

def register (dp : Connection) : PyM State Unit :=
  match dp.id with
  | none => throw .assertionError
  | some dpid => do
    let s ← get
    closeOld dpid
    modify fun s => { s with dps := s.dps.insert dpid dp }
    if dpid ∈ s.portState then pure () else enter dpid dp
    -- `send_dp_reset`
    if dpid ∈ s.dps then sendEventToObservers (.reconnected dp) else pure ()

/-- What `_unregister` does with a connection that it finds. -/
def leave (dpid : Nat) (dp : Connection) : PyM State Unit := do
  let ports := ((← get).portState.lookup dpid).elim [] PortState.values
  ports.forM (portDeleted dpid)
  sendEventToObservers (.dp dp false ports)
  let dps ← (← get).dps.delItem dpid
  modify fun s => { s with dps := dps }
  let portState ← (← get).portState.delItem dpid
  modify fun s => { s with portState := portState }

def unregister (dp : Connection) : PyM State Unit := do
  let s ← get
  if dp ∈ s.dps.values then
    match dp.id with
    | none => throw .keyError
    | some dpid => do
      let found ← s.dps.getItem dpid
      pyAssert (found = dp)
      leave dpid dp
  else pure ()

def dispatcherChange : StateChange → PyM State Unit
  | .main dp => register dp
  | .dead dp => unregister dp

def run (events : List StateChange) : PyM State Unit := events.forM dispatcherChange

/-! ### One event -/

variable {s : State} {dpid : Nat} {dp : Connection} {ports : PortState} {port : OfpPort}

theorem portAdded_apply (h : s.portState.lookup dpid = some ports) :
    portAdded dpid port s =
      (.ok (), { s with portState := s.portState.insert dpid (ports.add port) }) := by
  rw [portAdded, get_bind, lift_bind_of_ok (getItem_of_lookup h)]
  rfl

/-- The ports of a new datapath id are added; `t` are the port states of the other ids. -/
theorem forM_portAdded (s : State) (t : Dict Nat PortState) (ports : PortState)
    (added : List OfpPort) :
    ∃ ports', added.forM (portAdded dpid) { s with portState := t.insert dpid ports } =
      (.ok (), { s with portState := t.insert dpid ports' }) := by
  induction added generalizing ports with
  | nil => exact ⟨ports, rfl⟩
  | cons port added ih =>
    obtain ⟨ports', h⟩ := ih (ports.add port)
    refine ⟨ports', (forM_cons_of_ok (portAdded_apply (AList.lookup_insert t)) added).trans ?_⟩
    simpa only [AList.insert_insert] using h

theorem enter_apply (s : State) (dpid : Nat) (dp : Connection) :
    ∃ ports', enter dpid dp s = (.ok (), { s with
    portState := s.portState.insert dpid ports', sent := s.sent ++ [.dp dp true dp.ports] }) := by
  obtain ⟨ports', h⟩ := forM_portAdded s s.portState .empty dp.ports
  refine ⟨ports', ?_⟩
  rw [enter, modify_bind, bind_of_ok h]
  rfl

theorem portDeleted_apply (h : s.portState.lookup dpid = some ports)
    (hport : port.portNo ∈ ports.ports) : portDeleted dpid port s =
      (.ok (), { s with portState := s.portState.insert dpid (ports.erase port.portNo) }) := by
  rw [portDeleted, get_bind, lift_bind_of_ok (getItem_of_lookup h),
    lift_bind_of_ok (PortState.remove_of_mem hport)]
  rfl

/-- The loop of `_unregister` finds every port, since the numbers of the ports are distinct. -/
theorem forM_portDeleted {deleted : List OfpPort} (hnodup : (deleted.map OfpPort.portNo).Nodup)
    (h : s.portState.lookup dpid = some ports)
    (hports : ∀ port ∈ deleted, port.portNo ∈ ports.ports) :
    ∃ t, deleted.forM (portDeleted dpid) s = (.ok (), { s with portState := t }) ∧
      ∀ k, k ∈ t ↔ k ∈ s.portState := by
  induction deleted generalizing s ports with
  | nil => exact ⟨s.portState, rfl, fun _ => Iff.rfl⟩
  | cons port deleted ih =>
    obtain ⟨hnot, hnodup⟩ := nodup_cons.1 hnodup
    have hport := portDeleted_apply h (hports port (by simp))
    have hrest : ∀ p ∈ deleted, p.portNo ∈ (ports.erase port.portNo).ports := by
      intro p hp
      exact AList.mem_erase.2
        ⟨fun hno => hnot (hno ▸ mem_map_of_mem hp), hports p (by simp [hp])⟩
    obtain ⟨t, ht, hkeys⟩ := ih (s := { s with portState := s.portState.insert dpid _ }) hnodup
      (AList.lookup_insert s.portState) hrest
    refine ⟨t, (forM_cons_of_ok hport deleted).trans ht, fun k => (hkeys k).trans ?_⟩
    refine (AList.mem_insert s.portState).trans (or_iff_right_of_imp ?_)
    rintro rfl
    exact mem_of_lookup h

theorem leave_apply (dp : Connection) (hdps : dpid ∈ s.dps) (hports : dpid ∈ s.portState) :
    ∃ t ports, leave dpid dp s = (.ok (), { s with
      dps := s.dps.erase dpid, portState := t, sent := s.sent ++ [.dp dp false ports] }) ∧
    ∀ k, k ∈ t ↔ k ≠ dpid ∧ k ∈ s.portState := by
  obtain ⟨ports, hports⟩ := mem_iff_lookup.1 hports
  obtain ⟨t, ht, hkeys⟩ := forM_portDeleted ports.nodup_portNo_values hports fun port hport =>
    mem_of_lookup (PortState.mem_values.1 hport)
  have hmem : dpid ∈ t := (hkeys dpid).2 (mem_of_lookup hports)
  refine ⟨t.erase dpid, ports.values, ?_, fun k => by rw [AList.mem_erase, hkeys]⟩
  rw [leave, get_bind, hports]
  refine (bind_of_ok ht _).trans ?_
  rw [sendEventToObservers, modify_bind, get_bind,
    lift_bind_of_ok (delItem_of_mem hdps), modify_bind,
    get_bind, lift_bind_of_ok (delItem_of_mem hmem)]
  rfl

theorem closeOld_apply (s : State) (dpid : Nat) :
    ∃ closed, closeOld dpid s = (.ok (), { s with closed := closed }) := by
  rw [closeOld, get_bind]
  cases s.dps.lookup dpid with
  | none => exact ⟨s.closed, rfl⟩
  | some old => exact ⟨s.closed ++ [old], rfl⟩

theorem register_apply (hkeys : SameKeys s.portState s.dps) (hid : dp.id = some dpid) :
    ∃ s', register dp s = (.ok (), s') ∧ s'.dps = s.dps.insert dpid dp ∧
      SameKeys s'.portState s'.dps ∧
      s'.sent = s.sent ++ [if dpid ∈ s.dps then .reconnected dp else .dp dp true dp.ports] := by
  obtain ⟨closed, hclosed⟩ := closeOld_apply s dpid
  rw [register, hid]
  dsimp only
  rw [get_bind, bind_of_ok hclosed, modify_bind]
  by_cases hmem : dpid ∈ s.dps
  · rw [if_pos ((hkeys dpid).2 hmem), if_pos hmem]
    exact ⟨_, rfl, rfl, hkeys.insert_right hmem, by rw [if_pos hmem]⟩
  · obtain ⟨ports', henter⟩ := enter_apply
      { s with closed := closed, dps := s.dps.insert dpid dp } dpid dp
    rw [if_neg (mt (hkeys dpid).1 hmem), if_neg hmem, bind_of_ok henter]
    exact ⟨_, rfl, rfl, hkeys.insert, by rw [if_neg hmem]⟩

theorem unregister_apply (hkeys : SameKeys s.portState s.dps) (hid : dp.id = some dpid)
    (h : s.dps.lookup dpid = some dp) :
    ∃ s' ports, unregister dp s = (.ok (), s') ∧ s'.dps = s.dps.erase dpid ∧
      SameKeys s'.portState s'.dps ∧ s'.sent = s.sent ++ [.dp dp false ports] := by
  have hmem : dpid ∈ s.dps := mem_of_lookup h
  obtain ⟨t, ports, hleave, ht⟩ := leave_apply dp hmem ((hkeys dpid).2 hmem)
  have hfound : unregister dp s = leave dpid dp s := by
    rw [unregister, get_bind, if_pos (mem_values.2 ⟨dpid, h⟩), hid]
    dsimp only
    rw [lift_bind_of_ok (getItem_of_lookup h), lift_bind_of_ok (pyAssert_pos rfl)]
  refine ⟨_, ports, hfound.trans hleave, rfl, fun k => ?_, rfl⟩
  exact (ht k).trans ((and_congr_right fun _ => hkeys k).trans AList.mem_erase.symm)

theorem unregister_of_notMem (h : dp ∉ s.dps.values) : unregister dp s = (.ok (), s) := by
  rw [unregister, get_bind, if_neg h]
  rfl

/-! ### Runs -/

open History Presence

/-- What an event says about the presence of a datapath id. -/
def kind : Event → Option (Nat × Bool)
  | .dp dp enter _ => dp.id.map (·, enter)
  | .reconnected _ => none

/-- The connection reached MAIN last of those with the datapath id, and has not died since. -/
def LastRegistered (events : List StateChange) (dpid : Nat) (dp : Connection) : Prop :=
  dp.id = some dpid ∧ Since (.main dp)
    (fun e => e ≠ .dead dp ∧ ∀ dp', e = .main dp' → dp'.id ≠ some dpid) events

/-- Another connection with the same datapath id has reached MAIN since the connection did. -/
def Superseded (events : List StateChange) (dp : Connection) : Prop :=
  ∃ dp', dp' ≠ dp ∧ dp'.id = dp.id ∧ Since (.main dp') (· ≠ .main dp) events

variable {events : List StateChange} {dp' : Connection}

theorem lastRegistered_main :
    LastRegistered (events ++ [.main dp']) dpid dp ↔
      dp.id = some dpid ∧ dp' = dp ∨ dp'.id ≠ some dpid ∧ LastRegistered events dpid dp := by
  rw [LastRegistered, LastRegistered, since_concat]
  grind

theorem lastRegistered_dead :
    LastRegistered (events ++ [.dead dp']) dpid dp ↔
      dp' ≠ dp ∧ LastRegistered events dpid dp := by
  rw [LastRegistered, LastRegistered, since_concat]
  grind

theorem not_lastRegistered_of_superseded (h : Superseded events dp) :
    ¬LastRegistered events dpid dp := by
  obtain ⟨dp', hne, hid, hsince⟩ := h
  rintro ⟨hdpid, hlast⟩
  induction events using reverseRecOn with
  | nil => exact not_since_nil hsince
  | append_singleton events e ih =>
    rw [since_concat] at hsince hlast
    grind

structure Good (events : List StateChange) (s : State) : Prop where
  /-- Every datapath id with a connection has port states, and no other one has. -/
  keys : SameKeys s.portState s.dps
  registered : ∀ dpid dp, s.dps.lookup dpid = some dp ↔ LastRegistered events dpid dp
  alternates : ∀ dpid, Alternates (marks kind dpid s.sent)
  present : ∀ dpid, present kind dpid s.sent = true ↔ dpid ∈ s.dps
  reconnected : Throughout (fun before event => ∀ dp, event = .reconnected dp →
    ∃ dpid, dp.id = some dpid ∧ Presence.present kind dpid before = true) s.sent

theorem Good.init : Good [] {} where
  keys _ := by simp
  registered _ _ := iff_of_false (by simp) fun h => not_since_nil h.2
  alternates _ := by simp [Alternates, marks]
  present _ := by simp [Presence.present, marks]
  reconnected := throughout_nil

theorem Good.register (h : Good events s) (hid : dp.id = some dpid) :
    ∃ s', register dp s = (.ok (), s') ∧ Good (events ++ [.main dp]) s' := by
  obtain ⟨s', hs', hdps, hkeys, hsent⟩ := register_apply h.keys hid
  have hpresent := h.present dpid
  refine ⟨s', hs', hkeys, fun k dp' => ?_, fun k => ?_, fun k => ?_, ?_⟩
  · rw [hdps, lookup_insert, lastRegistered_main]
    have := h.registered k dp'
    grind
  · rw [hsent, alternates_marks_concat]
    refine ⟨h.alternates k, ?_⟩
    grind [mark, kind]
  · rw [hsent, hdps, present_concat, AList.mem_insert]
    have := h.present k
    grind [mark, kind]
  · rw [hsent, throughout_concat]
    refine ⟨h.reconnected, fun dp' heq => ?_⟩
    grind

theorem Good.unregister (h : Good events s) :
    ∃ s', unregister dp s = (.ok (), s') ∧ Good (events ++ [.dead dp]) s' := by
  by_cases hmem : dp ∈ s.dps.values
  · obtain ⟨dpid, hlookup⟩ := mem_values.1 hmem
    have hid : dp.id = some dpid := ((h.registered dpid dp).1 hlookup).1
    have hpresent : Presence.present kind dpid s.sent = true :=
      (h.present dpid).2 (mem_of_lookup hlookup)
    obtain ⟨s', ports, hs', hdps, hkeys, hsent⟩ := unregister_apply h.keys hid hlookup
    refine ⟨s', hs', hkeys, fun k dp' => ?_, fun k => ?_, fun k => ?_, ?_⟩
    · rw [hdps, lookup_erase, lastRegistered_dead]
      have := h.registered k dp'
      have hown : LastRegistered events k dp → dp.id = some k := And.left
      grind
    · rw [hsent, alternates_marks_concat]
      refine ⟨h.alternates k, ?_⟩
      grind [mark, kind]
    · rw [hsent, hdps, present_concat, AList.mem_erase]
      have := h.present k
      grind [mark, kind]
    · rw [hsent, throughout_concat]
      exact ⟨h.reconnected, by simp⟩
  · refine ⟨s, unregister_of_notMem hmem, h.keys, fun k dp' => ?_, h.alternates, h.present,
      h.reconnected⟩
    rw [lastRegistered_dead, ← h.registered, iff_and_self]
    rintro hlookup rfl
    exact hmem (mem_values.2 ⟨k, hlookup⟩)

theorem Good.dispatcherChange {event : StateChange} (h : Good events s)
    (hid : ∀ dp, event = .main dp → dp.id.isSome) :
    ∃ s', dispatcherChange event s = (.ok (), s') ∧ Good (events ++ [event]) s' := by
  cases event with
  | main dp =>
    obtain ⟨dpid, hdpid⟩ := Option.isSome_iff_exists.1 (hid dp rfl)
    exact h.register hdpid
  | dead dp => exact h.unregister

theorem good_run (hids : ∀ dp, .main dp ∈ events → dp.id.isSome) :
    ∃ s, run events {} = (.ok (), s) ∧ Good events s := by
  induction events using reverseRecOn with
  | nil => exact ⟨{}, rfl, .init⟩
  | append_singleton events event ih =>
    obtain ⟨s, hs, hgood⟩ := ih fun dp h => hids dp (by simp [h])
    have hid : ∀ dp, event = .main dp → dp.id.isSome := by
      rintro dp rfl
      exact hids dp (by simp)
    obtain ⟨s', hs', hgood'⟩ := hgood.dispatcherChange hid
    exact ⟨s', forM_concat_of_ok hs hs', hgood'⟩

/-- What holds of a run: the connection of each datapath id, the events sent, and what the death of
a connection does that another one has replaced. -/
structure Correct (events : List StateChange) (s : State) : Prop where
  registered : ∀ dpid dp, s.dps.lookup dpid = some dp ↔ LastRegistered events dpid dp
  alternates : ∀ dpid, Alternates (marks kind dpid s.sent)
  /-- The last event tells of an entry for the registered datapath ids and no others. -/
  present : ∀ dpid, present kind dpid s.sent = true ↔ dpid ∈ s.dps
  reconnected : ∀ before dp after, s.sent = before ++ .reconnected dp :: after →
    ∃ dpid, dp.id = some dpid ∧ Presence.present kind dpid before = true
  superseded : ∀ dp, Superseded events dp → dispatcherChange (.dead dp) s = (.ok (), s)

theorem Good.correct (h : Good events s) : Correct events s where
  registered := h.registered
  alternates := h.alternates
  present := h.present
  reconnected before dp after heq := h.reconnected before (.reconnected dp) after heq dp rfl
  superseded dp hsup := by
    refine unregister_of_notMem fun hmem => ?_
    obtain ⟨dpid, hlookup⟩ := mem_values.1 hmem
    exact not_lastRegistered_of_superseded hsup ((h.registered dpid dp).1 hlookup)

/-- Whatever connections reach MAIN and die, in whatever order: no handler raises, and the run is
correct. It is assumed that a connection has told its datapath id before it reaches MAIN, which the
negotiation does not ensure; without an id, `register` fails its assertion. -/
theorem run_correct (hids : ∀ dp, .main dp ∈ events → dp.id.isSome) :
    ∃ s, run events {} = (.ok (), s) ∧ Correct events s := by
  obtain ⟨s, hs, hgood⟩ := good_run hids
  exact ⟨s, hs, hgood.correct⟩

/-- A switch connects again, then its first connection dies. -/
def reconnect : List StateChange :=
  [.main ⟨0, some 1, 4, [⟨1, 0, 0⟩]⟩, .main ⟨1, some 1, 4, []⟩, .dead ⟨0, some 1, 4, [⟨1, 0, 0⟩]⟩]

theorem run_correct_reconnect : ∃ s, run reconnect {} = (.ok (), s) ∧ Correct reconnect s :=
  run_correct (by simp [reconnect])

end DpSet

end BebaCtrl
