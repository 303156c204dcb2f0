import BebaCtrl.Topology.Discovery
import BebaCtrl.Topology.Switches

/-!
# The links of the topology application

The application refines the model of discovered links: a packet discovers a link, a port that goes
down or a switch that leaves takes the links of its ports down, and a check of the timeouts lets
links expire. Every other input leaves the links and what was announced of them alone.
-/

namespace BebaCtrl.Switches

open Discovery History List PyM AList Dict

/-- The links of a state, and what the events sent so far say of them. -/
def State.view (s : State) : View PortId where
  links := {l | ⟨l.1, l.2⟩ ∈ s.links.timestamps}
  peer := s.links.getPeer
  announced := {l | Since (.linkAdd ⟨l.1, l.2⟩) (· ≠ .linkDelete ⟨l.1, l.2⟩) s.sent}

variable {s : State} {dpid portNo : Nat} {dp : Connection} {port src dst p d : PortId} {now : Rat}
  {linkDiscovery : Bool}

/-! ### Finding ports -/

/-- The port that `_get_port` finds. -/
def State.findPort (s : State) (dpid portNo : Nat) : Option Port :=
  match s.dps.lookup dpid, s.portState.lookup dpid with
  | some dp, some ports =>
    ((ports.ports.lookup portNo).map (Port.mk dpid dp.version)).filter (!·.isReserved)
  | _, _ => none

variable {ports : PortState} {q : Port}

theorem mem_switchPorts : q ∈ State.switchPorts dpid dp ports ↔
    ports.ports.lookup q.desc.portNo = some q.desc ∧ q = ⟨dpid, dp.version, q.desc⟩ ∧
      q.isReserved = false := by
  simp only [State.switchPorts, mem_filter, mem_map, PortState.mem_values,
    Bool.not_eq_eq_eq_not, Bool.not_true]
  constructor
  · rintro ⟨⟨desc, hdesc, rfl⟩, hr⟩
    exact ⟨hdesc, rfl, hr⟩
  · rintro ⟨hdesc, hq, hr⟩
    exact ⟨⟨q.desc, hdesc, hq.symm⟩, hr⟩

open State in
theorem find?_switchPorts :
    (switchPorts dpid dp ports).find? (·.desc.portNo = portNo) =
      ((ports.ports.lookup portNo).map (Port.mk dpid dp.version)).filter (!·.isReserved) := by
  ext q
  simp only [Option.filter_eq_some_iff, Option.map_eq_some_iff]
  constructor
  · intro h
    obtain ⟨hdesc, hq, hr⟩ := mem_switchPorts.1 (mem_of_find?_eq_some h)
    have hno : q.desc.portNo = portNo := by simpa using find?_some h
    exact ⟨⟨q.desc, hno ▸ hdesc, hq.symm⟩, by simpa using hr⟩
  · rintro ⟨⟨desc, hdesc, rfl⟩, hr⟩
    obtain rfl := ports.portNo_eq portNo desc hdesc
    have hmem : ⟨dpid, dp.version, desc⟩ ∈ switchPorts dpid dp ports :=
      mem_switchPorts.2 ⟨hdesc, rfl, by simpa using hr⟩
    cases hfind : (switchPorts dpid dp ports).find? (·.desc.portNo = desc.portNo) with
    | none => simpa using find?_eq_none.1 hfind _ hmem
    | some q =>
      obtain ⟨hdesc', hq, -⟩ := mem_switchPorts.1 (mem_of_find?_eq_some hfind)
      have hno : q.desc.portNo = desc.portNo := by simpa using find?_some hfind
      rw [hno, hdesc] at hdesc'
      rw [hq, ← Option.some.inj hdesc']

theorem State.getPort_eq (hkeys : s.SameKeys) :
    s.getPort dpid portNo = .ok (s.findPort dpid portNo) := by
  rw [getPort, findPort]
  by_cases h : dpid ∈ s.dps
  · obtain ⟨dp, hdp⟩ := mem_iff_lookup.1 h
    obtain ⟨ports, hports⟩ := mem_iff_lookup.1 ((hkeys dpid).2 h)
    rw [getSwitch_of_lookup hdp hports, hdp, hports]
    exact congrArg Except.ok find?_switchPorts
  · rw [getSwitch_of_notMem h, lookup_eq_none.2 h]
    rfl

theorem State.id_of_findPort (h : s.findPort dpid portNo = some q) :
    q.id = ⟨dpid, portNo⟩ := by
  unfold findPort at h
  split at h
  · rename_i ports _ _
    obtain ⟨hq, -⟩ := Option.filter_eq_some_iff.1 h
    obtain ⟨desc, hdesc, rfl⟩ := Option.map_eq_some_iff.1 hq
    rw [Port.id, ports.portNo_eq portNo desc hdesc]
  · cases h

/-! ### Packets and ports -/

variable {ev : Event}

theorem view_send (hadd : ∀ l, ev ≠ .linkAdd l) (hdelete : ∀ l, ev ≠ .linkDelete l) :
    (s.send ev).view = s.view := by
  ext l
  · rfl
  · rfl
  · simp only [State.view, State.send, Set.mem_ofPred_eq, since_concat]
    tauto

variable {links : LinkState} {link : Link}

theorem LinkState.linkDown_of_mem (hlink : link ∈ links.timestamps)
    (hpeer : link.src ∈ links.map) : linkDown link links =
      (.ok (), ⟨links.timestamps.erase link, links.map.erase link.src⟩) := by
  rw [linkDown, get_bind, lift_bind_of_ok (delItem_of_mem hlink),
    modify_bind, get_bind, lift_bind_of_ok (delItem_of_mem hpeer)]
  rfl

theorem LinkState.portDeleted_of_peer (h : links.getPeer p = some d)
    (hlink : ⟨p, d⟩ ∈ links.timestamps) (hne : d ≠ p) :
    portDeleted p links = (.ok (d, links.getPeer d),
      ⟨(links.timestamps.erase ⟨p, d⟩).erase ⟨d, p⟩, (links.map.erase p).erase d⟩) := by
  have hdown := linkDown_of_mem hlink (mem_of_lookup h)
  rw [portDeleted, get_bind, h]
  dsimp only
  rw [popPeer, bind_of_ok hdown, get_bind]
  rw [lookup_erase_ne hne]
  rfl

theorem view_linkDown_of_none (h : s.links.getPeer p = none) :
    (s.linkDown p).view = s.view.down p := by
  have hview : (s.linkDown p).view = s.view := by
    rw [State.linkDown, LinkState.portDeleted, get_bind, h]
    rfl
  rw [hview]
  ext l
  · simp [View.down, State.view, h]
  · simp [View.down, State.view, h]
    rintro hl rfl
    cases h.symm.trans hl
  · simp [View.down, State.view, h]

theorem view_linkDown (h : s.view.Sound PortId.dpid) : (s.linkDown p).view = s.view.down p := by
  cases hpeer : s.links.getPeer p with
  | none => exact view_linkDown_of_none hpeer
  | some d =>
    have hlink : ⟨p, d⟩ ∈ s.links.timestamps := h.link_of_peer p d hpeer
    have hne : d ≠ p := by
      rintro rfl
      exact h.side_ne (d, d) hlink rfl
    have hdown := LinkState.portDeleted_of_peer hpeer hlink hne
    have hlinks : (s.linkDown p).links =
        ⟨(s.links.timestamps.erase ⟨p, d⟩).erase ⟨d, p⟩, (s.links.map.erase p).erase d⟩ := by
      rw [State.linkDown, hdown]
      cases s.links.getPeer d <;> rfl
    have hsent : (s.linkDown p).sent = s.sent ++ [.linkDelete ⟨p, d⟩] ++
        ((s.links.getPeer d).map fun x => Event.linkDelete ⟨d, x⟩).toList := by
      rw [State.linkDown, hdown]
      cases s.links.getPeer d <;> simp [State.send]
    ext l
    · simp only [State.view, View.down, hlinks, hpeer, Set.mem_ofPred_eq, mem_erase]
      grind
    · simp only [State.view, View.down, hlinks, LinkState.getPeer, Dict.lookup_erase]
      unfold LinkState.getPeer at hpeer
      grind
    · simp only [State.view, View.down, hsent, hpeer, Set.mem_ofPred_eq]
      cases hrev : s.links.getPeer d with
      | none =>
        simp only [Option.map_none, Option.toList_none, append_nil, since_concat]
        grind
      | some x =>
        simp only [Option.map_some, Option.toList_some, since_concat]
        grind

theorem losePeer_links : (s.losePeer src dst).links = s.links := by
  unfold State.losePeer
  split
  · rfl
  · split_ifs <;> rfl

variable {l : PortId × PortId}

theorem mem_losePeer_announced : l ∈ (s.losePeer src dst).view.announced ↔
    l ∈ s.view.announced ∧ ¬(l.1 = src ∧ s.links.getPeer src = some l.2 ∧ l.2 ≠ dst) := by
  unfold State.losePeer
  cases h : s.links.getPeer src with
  | none => simp
  | some old =>
    dsimp only
    split_ifs with heq
    · grind
    · simp only [State.view, State.send, Set.mem_ofPred_eq, since_concat, Option.some.injEq]
      grind

theorem addLink_links : (s.addLink link).links = s.links := by
  unfold State.addLink
  split_ifs <;> rfl

theorem mem_addLink_announced : l ∈ (s.addLink ⟨src, dst⟩).view.announced ↔
    l ∈ s.view.announced ∨ l = (src, dst) ∧ l ∉ s.view.links := by
  unfold State.addLink
  split_ifs with h
  · simp only [State.view, Set.mem_ofPred_eq]
    grind
  · simp only [State.view, State.send, State.removeHosts, Set.mem_ofPred_eq, since_concat]
    grind

theorem updateLink_links : (s.updateLink src dst now).links =
    ⟨s.links.timestamps.insert ⟨src, dst⟩ now, s.links.map.insert src dst⟩ := by
  unfold State.updateLink
  dsimp only
  split_ifs <;> rfl

theorem updateLink_sent : (s.updateLink src dst now).sent = s.sent := by
  unfold State.updateLink
  dsimp only
  split_ifs <;> rfl

theorem view_discover : (s.discover src dst now).view = s.view.discover src dst := by
  have hlinks : (s.discover src dst now).links =
      ⟨s.links.timestamps.insert ⟨src, dst⟩ now, s.links.map.insert src dst⟩ := by
    rw [State.discover, updateLink_links, addLink_links, losePeer_links]
  ext l
  · simp only [State.view, View.discover, hlinks, Set.mem_ofPred_eq, Set.mem_insert_iff, mem_insert]
    grind
  · simp only [State.view, View.discover, hlinks, LinkState.getPeer, Dict.lookup_insert,
      Function.update_apply]
  · have hsent : (s.discover src dst now).view.announced =
        ((s.losePeer src dst).addLink ⟨src, dst⟩).view.announced := by
      simp only [State.view, State.discover, updateLink_sent]
    have hsame : (s.losePeer src dst).view.links = s.view.links := by
      simp only [State.view, losePeer_links]
    rw [hsent, mem_addLink_announced, mem_losePeer_announced, hsame]
    rfl

/-! ### What each input does to the links -/

/-- The source and the destination of the link that an input shows. -/
def discovered (linkDiscovery : Bool) (s : State) : Input → Option (PortId × PortId)
  | .lldpPacketIn dpid version inPort (.ok (some (srcDpid, srcPortNo))) _ =>
    if linkDiscovery ∧ srcDpid ≠ dpid ∧ (version = 1 ∨ 3 ≤ version) ∧
        (s.findPort srcDpid srcPortNo).isSome ∧ (s.findPort dpid inPort).isSome then
      some (⟨srcDpid, srcPortNo⟩, ⟨dpid, inPort⟩)
    else none
  | _ => none

/-- The ports of a switch, up to one that is missing from `ports`. -/
def State.portsToRemove (s : State) (dpid : Nat) : List PortId :=
  match s.dps.lookup dpid, s.portState.lookup dpid with
  | some dp, some ports => s.leavingPorts dpid dp ports
  | _, _ => []

/-- The ports for which an input calls `_link_down`: those of a switch that leaves, and a port that
has gone down. A port that was deleted is not found any more. -/
def takenDown (linkDiscovery : Bool) (s : State) : Input → List PortId
  | .stateChange (.dead dp) => if linkDiscovery then dp.id.elim [] s.portsToRemove else []
  | .portStatus dpid _ .modify desc =>
    match s.dps.lookup dpid with
    | some dp =>
      let port : Port := ⟨dpid, dp.version, desc⟩
      if linkDiscovery ∧ !port.isReserved ∧ port.isDown ∧ port.id ∈ s.ports then [port.id] else []
    | none => []
  | _ => []

/-- The state has the keys it should have, and its links are as `v` says. -/
structure Shows (s : State) (v : View PortId) : Prop where
  keys : s.SameKeys
  view : s.view = v

variable {v : View PortId}

theorem Shows.send (h : Shows s v) (hadd : ∀ l, ev ≠ .linkAdd l)
    (hdelete : ∀ l, ev ≠ .linkDelete l) : Shows (s.send ev) v :=
  ⟨h.keys, (view_send hadd hdelete).trans h.view⟩

theorem Shows.main (h : Shows s v) :
    Shows (stateChangeHandler linkDiscovery (.main dp) s).2 v := by
  cases hid : dp.id with
  | none =>
    rw [stateChangeHandler, hid]
    exact h
  | some dpid =>
    simp only [stateChangeHandler, hid]
    by_cases hmem : dpid ∈ s.dps
    · rw [mainHandler_of_mem h.keys hid hmem]
      exact ⟨h.keys.insert_right hmem, h.view⟩
    · rw [mainHandler_of_notMem h.keys hid hmem]
      exact ⟨h.keys.insert, (view_send (by simp) (by simp)).trans h.view⟩

theorem Shows.leave {switch : Option Switch} (h : Shows s v) : Shows (s.leave dpid switch) v :=
  ⟨h.keys.erase, (view_send (by simp) (by simp)).trans h.view⟩

/-- The ports of a switch that leaves go down one after the other. -/
theorem Shows.foldl_removePort {ports : List PortId} (h : Shows s v) (hsound : v.Sound PortId.dpid)
    (hapart : v.Apart ports) :
    Shows (ports.foldl State.removePort s) (ports.foldl View.down v) := by
  induction ports generalizing s v with
  | nil => exact h
  | cons p ports ih =>
    obtain ⟨hkeys, rfl⟩ := h
    have hp : s.view.Apart [p] := by
      intro q hq d hd hmem
      simp only [mem_singleton] at hq hmem
      subst hq hmem
      exact hapart d (by simp) d hd (by simp)
    refine ih ⟨?_, view_linkDown (s := { s with ports := s.ports.erase p }) hsound⟩
      (hsound.foldl_down hp) hapart.down
    simpa [State.SameKeys, State.removePort] using hkeys

theorem Shows.dead (h : Shows s v) (hsound : v.Sound PortId.dpid) :
    Shows (stateChangeHandler linkDiscovery (.dead dp) s).2
      ((takenDown linkDiscovery s (.stateChange (.dead dp))).foldl View.down v) := by
  cases hid : dp.id with
  | none =>
    simp only [stateChangeHandler, takenDown, hid, Option.elim_none, ite_self]
    exact h
  | some dpid =>
    simp only [stateChangeHandler, takenDown, hid, Option.elim_some, State.portsToRemove]
    by_cases hmem : dpid ∈ s.dps
    · obtain ⟨dp', hdp⟩ := mem_iff_lookup.1 hmem
      obtain ⟨ports, hports⟩ := mem_iff_lookup.1 ((h.keys dpid).2 hmem)
      rw [deadHandler_of_lookup h.keys hdp hports]
      simp only [hdp, hports]
      cases linkDiscovery with
      | false => exact h.leave
      | true =>
          exact h.leave.foldl_removePort hsound (hsound.apart fun _ => dpid_of_mem_leavingPorts)
    · rw [deadHandler_of_notMem h.keys hmem, lookup_eq_none.2 hmem]
      simp only [ite_self]
      exact h.leave

/-! ### Port status -/

variable {desc : OfpPort} {version : Nat} {ports ports' : PortState}
  {update : PortState → PyResult PortState} {ev : Port → Event} {act : Port → PyM State Unit}

/-- The state after the ports of a switch were changed, before the links are looked at. -/
def State.changed (s : State) (dpid : Nat) (ports : PortState) (ev : Event) : State :=
  { s with portState := s.portState.insert dpid ports }.send ev

theorem portChange_of_notMem (h : dpid ∉ s.portState) :
    portChange linkDiscovery update ev act dpid version desc s = (.error .keyError, s) := by
  rw [portChange, get_bind, getItem_of_notMem h]
  rfl

theorem portChange_of_error {e : PyErr} (h : s.portState.lookup dpid = some ports)
    (herror : update ports = .error e) :
    portChange linkDiscovery update ev act dpid version desc s = (.error e, s) := by
  rw [portChange, get_bind, lift_bind_of_ok (getItem_of_lookup h), herror]
  rfl

variable {event : Event}

theorem sameKeys_changed (hkeys : s.SameKeys) (hmem : dpid ∈ s.portState) :
    (s.changed dpid ports event).SameKeys :=
  hkeys.insert_left hmem

theorem Shows.changed (h : Shows s v) (hmem : dpid ∈ s.portState) (hadd : ∀ l, event ≠ .linkAdd l)
    (hdelete : ∀ l, event ≠ .linkDelete l) :
    Shows (s.changed dpid ports event) v :=
  ⟨sameKeys_changed h.keys hmem, (view_send hadd hdelete).trans h.view⟩

theorem portChange_of_ok (hkeys : s.SameKeys) (h : s.portState.lookup dpid = some ports)
    (hupdate : update ports = .ok ports') :
    portChange linkDiscovery update ev act dpid version desc s =
      let s' := s.changed dpid ports' (ev ⟨dpid, version, desc⟩)
      if linkDiscovery then (s'.findPort dpid desc.portNo).elim (.ok (), s') (act · s')
      else (.ok (), s') := by
  have hkeys' : (s.changed dpid ports' (ev ⟨dpid, version, desc⟩)).SameKeys :=
    sameKeys_changed hkeys (mem_of_lookup h)
  rw [portChange, get_bind, lift_bind_of_ok (getItem_of_lookup h),
    lift_bind_of_ok hupdate, modify_bind, modify_bind]
  cases linkDiscovery with
  | false => rfl
  | true =>
    refine (lift_bind_of_ok (State.getPort_eq hkeys') _ _).trans ?_
    dsimp only
    cases (s.changed dpid ports' (ev ⟨dpid, version, desc⟩)).findPort dpid desc.portNo <;> rfl

theorem findPort_changed (hdp : s.dps.lookup dpid = some dp) :
    (s.changed dpid ports event).findPort dpid portNo =
      ((ports.ports.lookup portNo).map (Port.mk dpid dp.version)).filter (!·.isReserved) := by
  simp [State.findPort, State.changed, State.send, hdp]

/-- A changed port leaves the links alone if what is done with the port does, whenever it is found.
-/
theorem Shows.portChange (h : Shows s v)
    (hev : ∀ p l, ev p ≠ .linkAdd l ∧ ev p ≠ .linkDelete l)
    (hact : ∀ ports ports' dp s', s.portState.lookup dpid = some ports → update ports = .ok ports' →
      s.dps.lookup dpid = some dp → Shows s' v → ∀ port,
      (ports'.ports.lookup desc.portNo).map (Port.mk dpid dp.version) = some port →
      Shows (act port s').2 v) :
    Shows (portChange linkDiscovery update ev act dpid version desc s).2 v := by
  by_cases hmem : dpid ∈ s.portState
  · obtain ⟨ports, hports⟩ := mem_iff_lookup.1 hmem
    obtain ⟨dp, hdp⟩ := mem_iff_lookup.1 ((h.keys dpid).1 hmem)
    cases hupdate : update ports with
    | error e =>
      rw [portChange_of_error hports hupdate]
      exact h
    | ok ports' =>
      rw [portChange_of_ok h.keys hports hupdate]
      have hchanged : Shows (s.changed dpid ports' (ev ⟨dpid, version, desc⟩)) v :=
        h.changed hmem (fun l => (hev _ l).1) fun l => (hev _ l).2
      dsimp only
      split_ifs
      · rw [findPort_changed hdp]
        cases hport : (ports'.ports.lookup desc.portNo).map (Port.mk dpid dp.version) with
        | none => exact hchanged
        | some port =>
          by_cases hr : port.isReserved
          · simpa [Option.filter, hr] using hchanged
          · simpa [Option.filter, hr] using
              hact ports ports' dp _ hports hupdate hdp hchanged port hport
      · exact hchanged
  · rw [portChange_of_notMem hmem]
    exact h

theorem Shows.portAdd (h : Shows s v) :
    Shows (portAddHandler linkDiscovery dpid version desc s).2 v :=
  h.portChange (by simp) fun _ _ _ _ _ _ _ h' _ _ => ⟨h'.keys, h'.view⟩

/-- A port that was deleted is not found, so nothing is done to its links. -/
theorem Shows.portDelete (h : Shows s v) :
    Shows (portDeleteHandler linkDiscovery dpid version desc s).2 v := by
  refine h.portChange (by simp) fun ports ports' dp s' _ hremove _ _ port hport => ?_
  unfold PortState.remove at hremove
  split at hremove
  · cases hremove
    simp [PortState.erase] at hport
  · cases hremove

theorem PortDataState.setDown_of_mem {ports : PortDataState} (isDown : Bool) (h : p ∈ ports) :
    ∃ ports', ports.setDown p isDown = .ok ports' := by
  obtain ⟨data, hdata⟩ := mem_iff_lookup.1 h
  rw [setDown, getItem_of_lookup hdata]
  exact ⟨_, rfl⟩

theorem Shows.setDown {port : Port} (h : Shows s v) (hsound : v.Sound PortId.dpid)
    (hdown : port.isDown) (hmem : port.id ∈ s.ports) :
    Shows (setDown port s).2 (v.down port.id) := by
  obtain ⟨hkeys, rfl⟩ := h
  obtain ⟨ports', hset⟩ := PortDataState.setDown_of_mem port.isDown hmem
  rw [Switches.setDown, get_bind, lift_bind_of_ok hset,
    modify_bind, if_pos hdown]
  refine ⟨?_, view_linkDown (s := { s with ports := ports' }) hsound⟩
  simpa [modify_apply, State.SameKeys] using hkeys

theorem Shows.setDown_of_not {port : Port} (h : Shows s v)
    (hnot : ¬(port.isDown ∧ port.id ∈ s.ports)) : Shows (Switches.setDown port s).2 v := by
  rw [Switches.setDown, get_bind]
  by_cases hmem : port.id ∈ s.ports
  · obtain ⟨ports', hset⟩ := PortDataState.setDown_of_mem port.isDown hmem
    rw [lift_bind_of_ok hset, modify_bind, if_neg fun hdown => hnot ⟨hdown, hmem⟩]
    exact ⟨h.keys, h.view⟩
  · rw [PortDataState.setDown, getItem_of_notMem hmem]
    exact h

private theorem add_ok (ports : PortState) (desc : OfpPort) :
    (fun ports : PortState => (.ok (ports.add desc) : PyResult PortState)) ports =
      .ok (ports.add desc) := rfl

theorem Shows.portModify (h : Shows s v) (hsound : v.Sound PortId.dpid) :
    Shows (portModifyHandler linkDiscovery dpid version desc s).2
      ((takenDown linkDiscovery s (.portStatus dpid version .modify desc)).foldl View.down v) := by
  by_cases hmem : dpid ∈ s.portState
  · obtain ⟨ports, hports⟩ := mem_iff_lookup.1 hmem
    obtain ⟨dp, hdp⟩ := mem_iff_lookup.1 ((h.keys dpid).1 hmem)
    have hchanged : Shows (s.changed dpid (ports.add desc) (.portModify ⟨dpid, version, desc⟩)) v :=
      h.changed hmem (by simp) (by simp)
    have hlookup : (ports.add desc).ports.lookup desc.portNo = some desc :=
      lookup_insert ports.ports
    rw [portModifyHandler, portChange_of_ok h.keys hports (add_ok ports desc)]
    simp only [takenDown, hdp, findPort_changed hdp, hlookup, Option.map_some]
    cases linkDiscovery with
    | false => simpa using hchanged
    | true =>
      by_cases hr : (Port.mk dpid dp.version desc).isReserved
      · simpa [Option.filter, hr] using hchanged
      · simp only [Option.filter, hr, Bool.not_false, if_true, Option.elim_some, true_and]
        split_ifs with hdown
        · exact hchanged.setDown hsound hdown.1 hdown.2
        · exact hchanged.setDown_of_not hdown
  · rw [portModifyHandler, portChange_of_notMem hmem]
    simpa [takenDown, lookup_eq_none.2 (mt (h.keys dpid).2 hmem)] using h

/-! ### Packets -/

theorem State.lldpReceived_eq (s : State) (src : PortId) :
    ∃ ports, s.lldpReceived src = { s with ports := ports } := by
  unfold State.lldpReceived
  cases s.ports.lldpReceived src with
  | error e => exact ⟨s.ports, rfl⟩
  | ok ports => exact ⟨ports, rfl⟩

theorem discover_tables : (s.discover src dst now).dps = s.dps ∧
    (s.discover src dst now).portState = s.portState := by
  unfold State.discover State.updateLink State.addLink State.losePeer
  cases s.links.getPeer src <;> dsimp only <;> split_ifs <;> exact ⟨rfl, rfl⟩

theorem Shows.discover (h : Shows s v) : Shows (s.discover src dst now) (v.discover src dst) := by
  obtain ⟨hkeys, rfl⟩ := h
  refine ⟨fun k => ?_, view_discover⟩
  rw [discover_tables.1, discover_tables.2]
  exact hkeys k

theorem Shows.receiveLldp (h : Shows s v) (srcDpid srcPortNo dpid version inPort : Nat)
    (now : Rat) : Shows (receiveLldp srcDpid srcPortNo dpid version inPort now s).2
      (if srcDpid ≠ dpid ∧ (version = 1 ∨ 3 ≤ version) ∧ (s.findPort srcDpid srcPortNo).isSome ∧
        (s.findPort dpid inPort).isSome then v.discover ⟨srcDpid, srcPortNo⟩ ⟨dpid, inPort⟩
          else v) := by
  rw [Switches.receiveLldp, get_bind, lift_bind_of_ok (State.getPort_eq h.keys)]
  cases hsrc : s.findPort srcDpid srcPortNo with
  | none => simpa [pure_apply] using h
  | some src =>
    have hsrcId := State.id_of_findPort hsrc
    have hdpid : src.dpid = srcDpid := congrArg PortId.dpid hsrcId
    simp only [Option.isSome_some, true_and, hdpid, hsrcId]
    by_cases hsame : srcDpid = dpid
    · simpa [hsame, pure_apply] using h
    obtain ⟨ports, hports⟩ := State.lldpReceived_eq s ⟨srcDpid, srcPortNo⟩
    have hreceived : Shows { s with ports := ports } v := ⟨h.keys, h.view⟩
    rw [if_neg hsame, modify_bind, hports]
    by_cases hversion : version = 1 ∨ 3 ≤ version
    · rw [if_pos hversion, get_bind,
        lift_bind_of_ok (State.getPort_eq hreceived.keys)]
      have hfind : { s with ports := ports }.findPort dpid inPort = s.findPort dpid inPort := rfl
      rw [hfind]
      cases hdst : s.findPort dpid inPort with
      | none => simpa [pure_apply] using hreceived
      | some dst =>
        simp only [hsame, hversion, State.id_of_findPort hdst, ne_eq, not_false_eq_true,
          Option.isSome_some, and_self, if_true]
        exact hreceived.discover
    · simp only [hversion, false_and, and_false, if_false]
      exact hreceived

variable {inPort : Nat}

theorem Shows.lldpPacketIn {lldp : PyResult (Option (Nat × Nat))} (h : Shows s v) :
    Shows (lldpPacketInHandler linkDiscovery dpid version inPort lldp now s).2
      ((discovered linkDiscovery s (.lldpPacketIn dpid version inPort lldp now)).elim v
        fun l => v.discover l.1 l.2) := by
  cases linkDiscovery with
  | false => rcases lldp with e | _ | _ <;> exact h
  | true =>
    rcases lldp with e | _ | ⟨srcDpid, srcPortNo⟩
    · exact h
    · exact h
    · have hreceive := h.receiveLldp srcDpid srcPortNo dpid version inPort now
      simp only [discovered, true_and]
      split_ifs at hreceive ⊢ <;> exact hreceive

theorem keeps_addHost {mac : String} : (addHost mac p).Keeps (Shows · v) := by
  refine .bind .get fun s => ?_
  split
  · exact .pure
  · refine .bind (.modify fun s h => ⟨h.keys, h.view⟩) fun _ => .modify fun s h => ?_
    exact h.send (by simp) (by simp)

theorem Shows.hostPacketIn {frame : PyResult (Option String)}
    {addr : PyResult HostAddr} (h : Shows s v) :
    Shows (hostDiscoveryPacketInHandler dpid inPort frame addr s).2 v := by
  refine PyM.Keeps.final (P := (Shows · v)) (.bind .lift fun frame => ?_) h
  cases frame with
  | none => exact .pure
  | some mac =>
    refine .bind .get fun s => .bind .lift fun port => ?_
    cases port with
    | none => exact .pure
    | some port =>
      refine .bind .get fun s => ?_
      split
      · exact .bind keeps_addHost fun _ => .bind .lift fun _ => .modify fun _ h => ⟨h.keys, h.view⟩
      · exact .pure

theorem Shows.sendLldp (h : Shows s v) : Shows (s.sendLldpPacket port now) v := by
  unfold State.sendLldpPacket
  split <;> exact ⟨h.keys, h.view⟩

/-! ### Timeouts -/

variable {deleted : List Link}

theorem view_checkReverse : (s.checkReverse link now).view = s.view := by
  have hmem : ∀ l, l ∈ (s.checkReverse link now).links.timestamps ↔ l ∈ s.links.timestamps := by
    simp only [State.checkReverse, LinkState.revLinkSetTimestamp]
    split_ifs <;> simp
  have hmap : (s.checkReverse link now).links.map = s.links.map := by
    simp only [State.checkReverse, LinkState.revLinkSetTimestamp]
    split_ifs <;> rfl
  ext l
  · exact hmem _
  · simp only [State.view, LinkState.getPeer, hmap]
  · rfl

theorem Shows.deleteLink (h : Shows s v) (hlink : link ∈ s.links.timestamps)
    (hpeer : link.src ∈ s.links.map) (deleted : List Link) (now : Rat) :
    ∃ s', deleteLink deleted now link s = (.ok (), s') ∧
      Shows s' (v.expire (link.src, link.dst)) := by
  obtain ⟨hkeys, rfl⟩ := h
  obtain ⟨src, dst⟩ := link
  let s₁ : State := { s with
    links := ⟨s.links.timestamps.erase ⟨src, dst⟩, s.links.map.erase src⟩
    sent := s.sent ++ [.linkDelete ⟨src, dst⟩] }
  have hview : s₁.view = s.view.expire (src, dst) := by
    ext l
    · simp only [State.view, View.expire, s₁, Set.mem_ofPred_eq, mem_erase, Set.mem_sdiff,
        Set.mem_singleton_iff]
      grind
    · simp only [State.view, View.expire, s₁, LinkState.getPeer, Dict.lookup_erase]
    · simp only [State.view, View.expire, s₁, Set.mem_ofPred_eq, since_concat, Set.mem_sdiff,
        Set.mem_singleton_iff]
      grind
  have hdown : onLinks (LinkState.linkDown ⟨src, dst⟩) s = (.ok (), { s with
      links := ⟨s.links.timestamps.erase ⟨src, dst⟩, s.links.map.erase src⟩ }) := by
    rw [onLinks, LinkState.linkDown_of_mem hlink hpeer]
  rw [Switches.deleteLink, bind_of_ok hdown, modify_bind]
  split_ifs
  · exact ⟨s₁, rfl, hkeys, hview⟩
  · exact ⟨s₁.checkReverse ⟨src, dst⟩ now, rfl, hkeys, view_checkReverse.trans hview⟩

theorem mem_of_mem_timedOut (h : link ∈ s.timedOut now) : link ∈ s.links.timestamps := by
  obtain ⟨entry, hentry, rfl⟩ := mem_map.1 h
  exact mem_keys.2 (mem_map_of_mem (mem_filter.1 hentry).1)

theorem nodup_timedOut : (s.timedOut now).Nodup :=
  s.links.timestamps.keys_nodup.sublist (filter_sublist.map Sigma.fst)

/-- When links and peers are in step, every link that timed out is found in both. -/
theorem forM_deleteLink (deleted : List Link) (now : Rat) {links : List Link} (hkeys : s.SameKeys)
    (hfaithful : s.view.Faithful PortId.dpid) (hnodup : links.Nodup)
    (hlinks : ∀ link ∈ links, link ∈ s.links.timestamps) : ∃ s',
    links.forM (deleteLink deleted now) s = (.ok (), s') ∧ s'.SameKeys ∧
      s'.view.Faithful PortId.dpid := by
  induction links generalizing s with
  | nil => exact ⟨s, rfl, hkeys, hfaithful⟩
  | cons link links ih =>
    obtain ⟨hnot, hnodup⟩ := nodup_cons.1 hnodup
    have hmem := hlinks link (by simp)
    have hpeer : link.src ∈ s.links.map :=
      mem_of_lookup (hfaithful.peer_of_link link.src link.dst hmem)
    obtain ⟨s₁, hs₁, hkeys₁, hview₁⟩ := Shows.deleteLink ⟨hkeys, rfl⟩ hmem hpeer deleted now
    have hfaithful₁ : s₁.view.Faithful PortId.dpid := by
      rw [hview₁]
      exact hfaithful.expire hmem
    have hrest : ∀ l ∈ links, l ∈ s₁.links.timestamps := by
      intro l hl
      have hin : (l.src, l.dst) ∈ s₁.view.links := by
        rw [hview₁]
        refine ⟨hlinks l (by simp [hl]), fun heq => hnot ?_⟩
        obtain ⟨hsrc, hdst⟩ := Prod.ext_iff.1 heq
        rwa [show link = l from congrArg₂ Link.mk hsrc.symm hdst.symm]
      exact hin
    obtain ⟨s', hs', hgood⟩ := ih hkeys₁ hfaithful₁ hnodup hrest
    exact ⟨s', (forM_cons_of_ok hs₁ links).trans hs', hgood⟩

theorem linkCheck_faithful (now : Rat) (hkeys : s.SameKeys)
    (hfaithful : s.view.Faithful PortId.dpid) :
    (linkCheck now s).2.SameKeys ∧ (linkCheck now s).2.view.Faithful PortId.dpid := by
  obtain ⟨s', hs', hgood⟩ := forM_deleteLink (s.timedOut now) now hkeys hfaithful nodup_timedOut
    fun link => mem_of_mem_timedOut
  rw [linkCheck, get_bind]
  rwa [hs']

/-- Whatever the state, the links only get fewer. -/
theorem keeps_deleteLink {L : Set (PortId × PortId)} (deleted : List Link) (now : Rat)
    (link : Link) : (deleteLink deleted now link).Keeps fun s =>
    s.SameKeys ∧ s.view.Sound PortId.dpid ∧ s.view.links ⊆ L := by
  rintro s ⟨hkeys, hsound, hsub⟩
  by_cases hlink : link ∈ s.links.timestamps
  · by_cases hpeer : link.src ∈ s.links.map
    · obtain ⟨s', hs', hkeys', hview⟩ := Shows.deleteLink ⟨hkeys, rfl⟩ hlink hpeer deleted now
      rw [hs']
      refine ⟨hkeys', ?_, ?_⟩ <;> rw [hview]
      · exact hsound.expire
      · exact fun l hl => hsub hl.1
    · -- the link is removed before its source is found to have no peer
      have hdown : onLinks (LinkState.linkDown link) s = (.error .keyError, { s with
          links := { s.links with timestamps := s.links.timestamps.erase link } }) := by
        rw [onLinks, LinkState.linkDown, get_bind,
          lift_bind_of_ok (delItem_of_mem hlink), modify_bind,
          get_bind, delItem_of_notMem hpeer]
        rfl
      have hfewer : ∀ l : PortId × PortId,
          ⟨l.1, l.2⟩ ∈ s.links.timestamps.erase link → l ∈ s.view.links := fun l hl =>
        (mem_erase.1 hl).2
      rw [deleteLink, bind_of_error hdown]
      refine ⟨hkeys, ⟨fun p d hd => ?_, fun l hl => hsound.side_ne l (hfewer l hl)⟩,
        fun l hl => hsub (hfewer l hl)⟩
      refine mem_erase.2 ⟨?_, hsound.link_of_peer p d hd⟩
      rintro rfl
      exact hpeer (mem_of_lookup hd)
  · have hdown : onLinks (LinkState.linkDown link) s = (.error .keyError, s) := by
      rw [onLinks, LinkState.linkDown, get_bind, delItem_of_notMem hlink]
      rfl
    rw [deleteLink, bind_of_error hdown]
    exact ⟨hkeys, hsound, hsub⟩

theorem linkCheck_sound (now : Rat) (hkeys : s.SameKeys) (hsound : s.view.Sound PortId.dpid) :
    (linkCheck now s).2.SameKeys ∧ (linkCheck now s).2.view.Sound PortId.dpid ∧
      (linkCheck now s).2.view.links ⊆ s.view.links := by
  have hkeeps : ((s.timedOut now).forM (deleteLink (s.timedOut now) now)).Keeps fun s' =>
      s'.SameKeys ∧ s'.view.Sound PortId.dpid ∧ s'.view.links ⊆ s.view.links :=
    .forM fun link => keeps_deleteLink _ now link
  exact hkeeps.final ⟨hkeys, hsound, fun _ h => h⟩

/-! ### Every input -/

variable {input : Input}

/-- An input other than a check of the timeouts is a step of the discovery. -/
theorem Shows.handle (linkDiscovery : Bool) (h : Shows s v) (hsound : v.Sound PortId.dpid)
    (hinput : ∀ now, input ≠ .linkCheck now) : Shows (handle linkDiscovery input s).2
      ((discovered linkDiscovery s input).elim
        ((takenDown linkDiscovery s input).foldl View.down v) fun l => v.discover l.1 l.2) := by
  cases input with
  | stateChange change =>
    cases change with
    | main dp => exact h.main
    | dead dp => exact h.dead hsound
  | portStatus dpid version reason desc =>
    cases reason with
    | add => exact h.portAdd
    | delete => exact h.portDelete
    | modify => exact h.portModify hsound
    | other => exact h
  | lldpPacketIn dpid version inPort lldp now => exact h.lldpPacketIn
  | hostPacketIn dpid inPort frame addr => exact h.hostPacketIn
  | sendLldp port now => exact h.sendLldp
  | linkCheck now => exact absurd rfl (hinput now)

theorem dpid_ne_of_discovered (h : discovered linkDiscovery s input = some l) :
    l.1.dpid ≠ l.2.dpid := by
  unfold discovered at h
  split at h
  · split_ifs at h with hcond
    cases h
    exact hcond.2.1
  · cases h

/-- A packet takes no port down. -/
theorem takenDown_of_discovered (h : discovered linkDiscovery s input = some l) :
    takenDown linkDiscovery s input = [] := by
  unfold discovered at h
  split at h
  · rfl
  · cases h

/-- The ports that an input takes down belong to one switch. -/
theorem dpid_of_mem_takenDown (input : Input) :
    ∃ dpid, ∀ p ∈ takenDown linkDiscovery s input, p.dpid = dpid := by
  unfold takenDown
  split
  · rename_i dp
    cases linkDiscovery with
    | false => exact ⟨0, by simp⟩
    | true =>
      cases dp.id with
      | none => exact ⟨0, by simp⟩
      | some dpid =>
        refine ⟨dpid, fun p hp => ?_⟩
        simp only [if_true, Option.elim_some, State.portsToRemove] at hp
        split at hp
        · exact dpid_of_mem_leavingPorts hp
        · cases hp
  · rename_i dpid _ desc
    refine ⟨dpid, fun p hp => ?_⟩
    split at hp
    · dsimp only at hp
      split_ifs at hp
      · obtain rfl := mem_singleton.1 hp
        rfl
      · cases hp
    · cases hp
  · exact ⟨0, by simp⟩

theorem apart_takenDown (linkDiscovery : Bool) (hsound : s.view.Sound PortId.dpid) (input : Input) :
    s.view.Apart (takenDown linkDiscovery s input) := by
  obtain ⟨dpid, hdpid⟩ := dpid_of_mem_takenDown input
  exact hsound.apart hdpid

end BebaCtrl.Switches
