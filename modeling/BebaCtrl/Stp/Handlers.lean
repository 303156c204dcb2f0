import BebaCtrl.Lib.Coop
import BebaCtrl.Stp.Roles

/-!
# The handlers of a bridge

What a bridge does when a packet or a port status message arrives and when a timer expires, as green
threads. Where the code sends a message or an event, stops a thread or calls `hub.sleep`, another
thread may run.

A handler holds references to the port objects. The dictionary of the bridge can get a new object
under the same number in the meantime; then the handler goes on with the old one, whose attributes
no one else reads, and its changes are left out.

The flags and timers of topology changes, the packets that are sent and the messages to the switch
do not take part in the choice of the roles, and are left out too.
-/

namespace BebaCtrl.Stp

open Coop List AList Dict

namespace Bridge

def mapPorts (b : Bridge) (f : ℕ → Port → Port) : Bridge := { b with ports := b.ports.mapEntries f }

/-- Changes the port with number `n`. -/
def adjust (b : Bridge) (n : ℕ) (f : Port → Port) : Bridge :=
  b.mapPorts fun n' p => if n' = n then f p else p

end Bridge

/-- What the handlers share. -/
structure Shared where
  bridge : Bridge
  /-- How many port objects there have been under each number. -/
  generation : ℕ → ℕ

/-- A port object. -/
structure PortRef where
  portNo : ℕ
  generation : ℕ

/-- A port that is added, with the settings that it gets. -/
structure NewPort where
  portNo : ℕ
  priority : ℤ
  pathCost : ℤ
  hwAddr : MacAddr
  configEnable : Bool
  /-- The order of the dictionary afterwards: its table is built again when it grows. -/
  order : List ℕ

namespace Shared

/-- The object under a number. -/
def ref (s : Shared) (n : ℕ) : PortRef := ⟨n, s.generation n⟩

def port? (s : Shared) (ref : PortRef) : Option Port :=
  if s.generation ref.portNo = ref.generation then s.bridge.ports.lookup ref.portNo else none

/-- Changes the attributes of a port object. -/
def assign (s : Shared) (ref : PortRef) (f : Port → Port) : Shared :=
  if s.generation ref.portNo = ref.generation then
    { s with bridge := s.bridge.adjust ref.portNo f }
  else s

end Shared

/-- The new port as its constructor leaves it. -/
def NewPort.port (new : NewPort) (b : Bridge) : Port where
  priority := new.priority
  pathCost := new.pathCost
  hwAddr := new.hwAddr
  configEnable := new.configEnable
  state := if new.configEnable then .listen else .disable
  role := .designated
  designated := none
  portPriority := ⟨b.bridgeId, 0, none⟩
  portTimes := b.bridgeTimes

namespace Bridge

/-- The new port takes the place of another one. -/
def replacePort (b : Bridge) (new : NewPort) : Bridge := b.adjust new.portNo fun _ => new.port b

/-- The dictionary has no port with the number yet. -/
def insertPort (b : Bridge) (new : NewPort) : Bridge :=
  { b with ports := arrange (b.ports.insert new.portNo (new.port b)) new.order }

end Bridge

/-! ### Ports -/

namespace Handler

/-- `_change_role`; the thread that waits for packets is started or stopped. -/
def changeRole (ref : PortRef) (newRole : PortRole) : Coop Shared Unit := do
  modify (·.assign ref ({ · with role := newRole }))
  yield

/-- `_change_status` -/
def changeStatus (ref : PortRef) (newState : PortState) : Coop Shared Unit := do
  yield
  modify (·.assign ref ({ · with state := newState }))
  yield

/-- `Port.up` -/
def up (ref : PortRef) (role : PortRole) (rootPriority : Priority) (rootTimes : Times) :
    Coop Shared Unit := do
  modify (·.assign ref ({ · with portPriority := rootPriority, portTimes := rootTimes }))
  let configEnable := ((← get).port? ref).any (·.configEnable)
  changeRole ref role
  changeStatus ref (if configEnable then .listen else .disable)

/-- `Port.down` -/
def down (ref : PortRef) (state : PortState) (msgInit : Bool) : Coop Shared Unit := do
  if ((← get).port? ref).any (·.configEnable) then
    if msgInit then
      modify (·.assign ref ({ · with designated := none }))
    changeRole ref .designated
    changeStatus ref state

/-- `Stp.compare_bpdu_info`. The values of the sender are compared with a text and with the number
of the port, instead of with the values that are held; so they never count as equal, and a message
that differs in its times only is superior. -/
def compareBpduInfo : Option (Message × Times) → Message × Times → CmpResult
  | none, _ => .superior
  | some (myPriority, myTimes), (rcvPriority, rcvTimes) =>
    match cmpValue rcvPriority.rootId.value myPriority.rootId.value with
    | .repeated =>
      match compareRootPath rcvPriority.rootPathCost myPriority.rootPathCost
        rcvPriority.designatedBridgeId.value myPriority.designatedBridgeId.value
        rcvPriority.designatedPortId.value myPriority.designatedPortId.value with
      | .repeated => if rcvTimes = myTimes then .repeated else .superior
      | result => result
    | result => result

/-- `rcv_config_bpdu`, on a port that has stored `designated`. -/
def rcvConfigBpdu (ref : PortRef) (designated : Option (Message × Times))
    (bpduPkt : ConfigurationBPDUs) : Coop Shared CmpResult := do
  let msg : Message × Times := (.ofBpdu bpduPkt, .ofBpdu bpduPkt)
  let rcvInfo := compareBpduInfo designated msg
  if rcvInfo = .superior then
    modify (·.assign ref ({ · with designated := some msg }))
  -- The timer that waits for packets is set again.
  yield
  return rcvInfo

end Handler

/-- `_get_next_state`, where a timer runs. -/
def Port.nextState (p : Port) : Option PortState :=
  match p.state with
  | .listen => some .learn
  | .learn => some (if p.role = .root ∨ p.role = .designated then .forward else .block)
  | .disable | .block | .forward => none

/-! ### The bridge -/

/-- The roles in `recalculate_spanning_tree`, with the priority and the times of the root. -/
def Bridge.newRoles (b : Bridge) (init : Bool) : Dict ℕ PortRole × Priority × Times :=
  if init then
    (b.ports.keys.foldl (fun roles portNo => roles.insert portNo .designated) ∅, b.rootPriority,
      b.rootTimes)
  else b.spanningTreeAlgorithm

namespace Handler

def allPortsDown (init : Bool) : Coop Shared Unit := do
  let s ← get
  (s.bridge.ports.keys.map s.ref).forM fun ref => do
    if ((← get).port? ref).any (·.Enabled) then
      down ref .block init

def updateTreeRoles (init : Bool) : Coop Shared (Dict ℕ PortRole) := do
  modify fun s => { s with bridge := s.bridge.reset }
  let (roles, rootPriority, rootTimes) := (← get).bridge.newRoles init
  modify fun s => { s with bridge.rootPriority := rootPriority, bridge.rootTimes := rootTimes }
  return roles

def allPortsUp (roles : Dict ℕ PortRole) : Coop Shared Unit :=
  roles.entries.forM fun entry => do
    let s ← get
    let port ← s.bridge.ports.getItem entry.1
    if port.Enabled then
      up (s.ref entry.1) entry.2 s.bridge.rootPriority s.bridge.rootTimes

/-- `recalculate_spanning_tree` -/
def recalculateSpanningTree (init : Bool) : Coop Shared Unit := do
  allPortsDown init
  yield
  allPortsUp (← updateTreeRoles init)

/-- `Bridge.port_add`; the constructor starts the port before the dictionary has it. -/
def portAdd (new : NewPort) : Coop Shared Unit := do
  if new.portNo ≤ maxPortNo then
    yield
    modify fun s => { s with
      bridge := if new.portNo ∈ s.bridge.ports then s.bridge.replacePort new
        else s.bridge.insertPort new
      generation := Function.update s.generation new.portNo (s.generation new.portNo + 1) }

/-- `Bridge.link_up` -/
def linkUp (portNo : ℕ) : Coop Shared Unit := do
  let s ← get
  let _ ← s.bridge.ports.getItem portNo
  up (s.ref portNo) .designated s.bridge.rootPriority s.bridge.rootTimes

/-- `Bridge.link_down` -/
def linkDown (portNo : ℕ) : Coop Shared Unit := do
  let s ← get
  let port ← s.bridge.ports.getItem portNo
  down (s.ref portNo) .disable true
  if port.role = .root then
    recalculateSpanningTree true

/-- `Bridge.port_delete` -/
def portDelete (portNo : ℕ) : Coop Shared Unit := do
  linkDown portNo
  let _ ← (← get).bridge.ports.getItem portNo
  -- The threads of the port are stopped.
  yield
  let ports ← (← get).bridge.ports.delItem portNo
  modify fun s => { s with bridge.ports := ports }

/-- `Bridge.packet_in_handler`, for a configuration message. -/
def packetIn (inPortNo : ℕ) (bpduPkt : ConfigurationBPDUs) : Coop Shared Unit := do
  let s ← get
  if let some inPort := s.bridge.ports.lookup inPortNo then
    if inPort.Enabled ∧ bpduPkt.messageAge ≤ bpduPkt.maxAge then
      let rcvInfo ← rcvConfigBpdu (s.ref inPortNo) inPort.designated bpduPkt
      if rcvInfo = .superior then
        recalculateSpanningTree false

/-- `Port._state_machine`, when the forward delay is over. -/
def stateMachine (portNo : ℕ) : Coop Shared Unit := do
  let s ← get
  if let some newState := (s.bridge.ports.lookup portNo).bind Port.nextState then
    changeStatus (s.ref portNo) newState

end Handler

/-! ### Without interruption -/

/-- A port after `down`. -/
def Port.downed (p : Port) (state : PortState) (msgInit : Bool) : Port :=
  if p.configEnable then
    { p with
      designated := if msgInit then none else p.designated
      role := .designated
      state := state }
  else p

/-- A port after `up`. -/
def Port.upped (p : Port) (role : PortRole) (rootPriority : Priority) (rootTimes : Times) : Port :=
  { p with
    portPriority := rootPriority
    portTimes := rootTimes
    role := role
    state := if p.configEnable then .listen else .disable }

namespace Port

variable {p : Port} {role : PortRole} {rootPriority : Priority} {rootTimes : Times}

theorem enabled_upped :
    (p.upped role rootPriority rootTimes).Enabled ↔ p.configEnable = true := by
  cases hconfig : p.configEnable <;> simp [upped, Enabled, hconfig]

theorem state_ne_forward (h : ¬p.Enabled) : p.state ≠ .forward := by
  have hstate : p.state = .disable := not_not.1 h
  simp [hstate]

theorem state_upped_ne_forward : (p.upped role rootPriority rootTimes).state ≠ .forward := by
  cases hconfig : p.configEnable <;> simp [upped, hconfig]

end Port

/-- A bridge after the first loop of `recalculate_spanning_tree`. -/
def Bridge.allDown (b : Bridge) (init : Bool) : Bridge :=
  b.mapPorts fun _ p => if p.Enabled then p.downed .block init else p

namespace Bridge

variable {b : Bridge} {n : ℕ} {f g : ℕ → Port → Port}

theorem mapPorts_mapPorts :
    (b.mapPorts f).mapPorts g = b.mapPorts fun n p => g n (f n p) := by
  simp only [mapPorts, mapEntries_mapEntries]

theorem mapPorts_id : b.mapPorts (fun _ => id) = b := by
  unfold mapPorts
  rw [mapEntries_id]

theorem mapPorts_congr
    (h : ∀ n p, b.ports.lookup n = some p → f n p = g n p) : b.mapPorts f = b.mapPorts g := by
  simp only [mapPorts, mapEntries_congr h]

theorem lookup_mapPorts :
    (b.mapPorts f).ports.lookup n = (b.ports.lookup n).map (f n) := lookup_mapEntries

theorem adjust_adjust {f g : Port → Port} :
    (b.adjust n f).adjust n g = b.adjust n fun p => g (f p) := by
  unfold adjust
  rw [mapPorts_mapPorts]
  grind

theorem adjust_congr {f g : Port → Port} (h : ∀ p, b.ports.lookup n = some p → f p = g p) :
    b.adjust n f = b.adjust n g := by
  apply mapPorts_congr
  grind

theorem adjust_id : b.adjust n id = b := by
  have hid : (fun (n' : ℕ) (p : Port) => if n' = n then id p else p) = fun _ => id := by grind
  rw [adjust, hid, mapPorts_id]

theorem lookup_adjust {n' : ℕ} {f : Port → Port} : (b.adjust n f).ports.lookup n' =
    if n' = n then (b.ports.lookup n').map f else b.ports.lookup n' := by
  unfold adjust
  rw [lookup_mapPorts]
  by_cases h : n' = n <;> simp [h]

end Bridge

namespace Shared

variable {s : Shared} {n : ℕ} {f g : Port → Port} {ref : PortRef}

theorem assign_ref : s.assign (s.ref n) f = { s with bridge := s.bridge.adjust n f } := if_pos rfl

theorem port?_ref : s.port? (s.ref n) = s.bridge.ports.lookup n := if_pos rfl

theorem assign_assign : (s.assign ref f).assign ref g = s.assign ref fun p => g (f p) := by
  by_cases h : s.generation ref.portNo = ref.generation
  · simp only [assign, if_pos h, Bridge.adjust_adjust]
  · simp only [assign, if_neg h]

theorem port?_assign : (s.assign ref f).port? ref = (s.port? ref).map f := by
  by_cases h : s.generation ref.portNo = ref.generation
  · simp [assign, port?, if_pos h, Bridge.lookup_adjust]
  · simp [assign, port?, if_neg h]

theorem assign_congr (h : ∀ p, s.port? ref = some p → f p = g p) :
    s.assign ref f = s.assign ref g := by
  by_cases hgen : s.generation ref.portNo = ref.generation
  · simp only [port?, if_pos hgen] at h
    simp only [assign, if_pos hgen, Bridge.adjust_congr h]
  · simp only [assign, if_neg hgen]

theorem adjust_eq_self (h : ∀ p, s.bridge.ports.lookup n = some p → f p = p) :
    { s with bridge := s.bridge.adjust n f } = s := by
  have hid : s.bridge.adjust n f = s.bridge := (Bridge.adjust_congr h).trans Bridge.adjust_id
  rw [hid]

theorem assign_id : s.assign ref id = s := by
  unfold assign
  split
  · rw [Bridge.adjust_id]
  · rfl

end Shared

namespace Handler

variable {s : Shared} {ref : PortRef}

theorem atomic_changeStatus {newState : PortState} : (changeStatus ref newState).atomic s =
    (.ok (), s.assign ref ({ · with state := newState })) := rfl

theorem atomic_up {role : PortRole} {rootPriority : Priority} {rootTimes : Times} :
    (up ref role rootPriority rootTimes).atomic s =
      (.ok (), s.assign ref (·.upped role rootPriority rootTimes)) := by
  let enter : Port → Port := ({ · with portPriority := rootPriority, portTimes := rootTimes })
  change (Except.ok (), ((s.assign ref enter).assign ref ({ · with role := role })).assign ref
    ({ · with state := if ((s.assign ref enter).port? ref).any (·.configEnable) then .listen
        else .disable })) = _
  rw [Shared.assign_assign, Shared.assign_assign, Shared.port?_assign]
  congr 1
  apply Shared.assign_congr
  intro p hp
  rw [hp]
  rfl

theorem atomic_down {state : PortState} {msgInit : Bool} :
    (down ref state msgInit).atomic s = (.ok (), s.assign ref (·.downed state msgInit)) := by
  refine atomic_get_bind.trans ?_
  by_cases hany : (s.port? ref).any (·.configEnable) = true
  · rw [if_pos hany]
    cases msgInit with
    | false =>
      change (Except.ok (), (s.assign ref ({ · with role := .designated })).assign ref
        ({ · with state := state })) = _
      rw [Shared.assign_assign]
      congr 1
      apply Shared.assign_congr
      grind [Port.downed]
    | true =>
      change (Except.ok (), ((s.assign ref ({ · with designated := none })).assign ref
        ({ · with role := .designated })).assign ref ({ · with state := state })) = _
      rw [Shared.assign_assign, Shared.assign_assign]
      congr 1
      apply Shared.assign_congr
      grind [Port.downed]
  · rw [if_neg hany]
    change (Except.ok (), s) = _
    congr 1
    refine Shared.assign_id.symm.trans (Shared.assign_congr ?_)
    intro p hp
    rw [hp] at hany
    exact (if_neg hany).symm

/-- A loop that changes one port after the other. -/
theorem atomic_forM {ι : Type} (key : ι → ℕ) {body : ι → Coop Shared PUnit} (f : ι → Port → Port)
    (I : Shared → Prop) (hI : ∀ s n f, I s → I { s with bridge := s.bridge.adjust n f })
    {xs : List ι} (hnodup : (xs.map key).Nodup)
    (hbody : ∀ x ∈ xs, ∀ s, I s →
      (body x).atomic s = (.ok (), { s with bridge := s.bridge.adjust (key x) (f x) }))
    (hs : I s) : (xs.forM body).atomic s = (.ok (), { s with
      bridge := s.bridge.mapPorts fun n p => (xs.find? (key · = n)).elim p (f · p) }) := by
  induction xs generalizing s with
  | nil =>
    change (Except.ok (), s) = _
    rw [show (fun (n : ℕ) (p : Port) => (List.find? (key · = n) []).elim p (f · p)) =
      fun _ => id from rfl, Bridge.mapPorts_id]
  | cons x xs ih =>
    obtain ⟨hx, hnodup⟩ := nodup_cons.1 hnodup
    refine (atomic_bind_of_ok (hbody x (by simp) s hs)).trans ?_
    rw [ih hnodup (fun x' hx' => hbody x' (by simp [hx'])) (hI s _ _ hs), Bridge.adjust,
      Bridge.mapPorts_mapPorts]
    congr 3
    funext n p
    by_cases hn : key x = n
    · have hnone : xs.find? (key · = n) = none := by
        simp only [find?_eq_none, decide_eq_true_eq]
        rintro x' hx' rfl
        exact hx (hn ▸ mem_map_of_mem hx')
      simp [hn, hnone]
    · simp [hn, Ne.symm hn]

variable {init : Bool}

theorem atomic_allPortsDown :
    (allPortsDown init).atomic s = (.ok (), { s with bridge := s.bridge.allDown init }) := by
  refine (atomic_forM PortRef.portNo (fun _ p => if p.Enabled then p.downed .block init else p)
    (fun s' => s'.generation = s.generation) (fun _ _ _ h => h) ?_ ?_ rfl).trans ?_
  · rw [map_map]
    exact (map_id s.bridge.ports.keys).symm ▸ s.bridge.ports.keys_nodup
  · rintro ref href s' hs'
    obtain ⟨n, -, rfl⟩ := mem_map.1 href
    have href' : s.ref n = s'.ref n := by rw [Shared.ref, ← hs', Shared.ref]
    rw [href']
    refine atomic_get_bind.trans ?_
    rw [Shared.port?_ref]
    by_cases hany : (s'.bridge.ports.lookup n).any (fun p => p.Enabled) = true
    · rw [if_pos hany, atomic_down, Shared.assign_ref]
      congr 2
      apply Bridge.adjust_congr
      grind
    · rw [if_neg hany]
      change (Except.ok (), s') = _
      congr 1
      refine (Shared.adjust_eq_self ?_).symm
      grind [Shared.ref]
  · congr 2
    apply Bridge.mapPorts_congr
    intro n p hp
    have hmem : s.ref n ∈ s.bridge.ports.keys.map s.ref :=
      mem_map_of_mem (mem_keys.1 (mem_of_lookup hp))
    have hsome : ((s.bridge.ports.keys.map s.ref).find? (PortRef.portNo · = n)).isSome := by
      rw [find?_isSome]
      exact ⟨s.ref n, hmem, decide_eq_true rfl⟩
    obtain ⟨ref, href⟩ := Option.isSome_iff_exists.1 hsome
    rw [href]
    rfl

theorem atomic_allPortsUp {roles : Dict ℕ PortRole} (hroles : ∀ n ∈ roles, n ∈ s.bridge.ports) :
    (allPortsUp roles).atomic s = (.ok (), { s with
      bridge := s.bridge.mapPorts fun n p => (roles.lookup n).elim p fun role =>
        if p.Enabled then p.upped role s.bridge.rootPriority s.bridge.rootTimes else p }) := by
  refine (atomic_forM Sigma.fst
    (fun entry p =>
      if p.Enabled then p.upped entry.2 s.bridge.rootPriority s.bridge.rootTimes else p)
    (fun s' => s'.bridge.ports.keys = s.bridge.ports.keys ∧
      s'.bridge.rootPriority = s.bridge.rootPriority ∧ s'.bridge.rootTimes = s.bridge.rootTimes)
    ?_ roles.nodupKeys ?_ ⟨rfl, rfl, rfl⟩).trans ?_
  · rintro s' n f ⟨hkeys, hpriority, htimes⟩
    exact ⟨keys_mapEntries.trans hkeys, hpriority, htimes⟩
  · rintro ⟨n, role⟩ hentry s' ⟨hkeys, hpriority, htimes⟩
    have hmem : n ∈ s'.bridge.ports := by
      rw [AList.mem_keys, hkeys, ← AList.mem_keys]
      exact hroles n (mem_of_lookup (mem_entries.1 hentry))
    obtain ⟨p, hp⟩ := mem_iff_lookup.1 hmem
    refine atomic_get_bind.trans ?_
    refine (atomic_bind_of_ok (atomic_lift.trans (by rw [getItem_of_lookup hp]))).trans ?_
    by_cases henabled : p.Enabled
    · rw [if_pos henabled, atomic_up, Shared.assign_ref, hpriority, htimes]
      congr 2
      apply Bridge.adjust_congr
      grind
    · rw [if_neg henabled]
      change (Except.ok (), s') = _
      congr 1
      refine (Shared.adjust_eq_self ?_).symm
      grind [Shared.ref]
  · congr 2
    apply Bridge.mapPorts_congr
    intro n p hp
    rw [find?_entries]
    cases roles.lookup n <;> rfl

theorem mem_ports_of_mem_newRoles {b : Bridge} {n : ℕ}
    (h : n ∈ (b.reset.newRoles init).1) : n ∈ b.ports := by
  unfold Bridge.newRoles at h
  split at h
  next =>
    obtain ⟨role, hrole⟩ := mem_iff_lookup.1 h
    rw [lookup_foldl_insert, lookup_empty] at hrole
    exact mem_keys.2 (Option.ite_none_right_eq_some.1 hrole).1
  next => exact Bridge.mem_ports_of_mem_roles (b := b.reset) rfl h

end Handler

/-- A bridge after `recalculate_spanning_tree`. -/
def Bridge.recalculated (b : Bridge) (init : Bool) : Bridge :=
  let new := (b.allDown init).reset.newRoles init
  { b.allDown init with rootPriority := new.2.1, rootTimes := new.2.2 }.mapPorts fun n p =>
    (new.1.lookup n).elim p fun role => if p.Enabled then p.upped role new.2.1 new.2.2 else p

theorem Handler.atomic_recalculateSpanningTree {s : Shared} {init : Bool} :
    (recalculateSpanningTree init).atomic s =
      (.ok (), { s with bridge := s.bridge.recalculated init }) := by
  refine (atomic_bind_of_ok atomic_allPortsDown).trans (atomic_yield_bind.trans ?_)
  refine (atomic_bind_of_ok rfl).trans (atomic_allPortsUp ?_)
  intro n hn
  exact mem_ports_of_mem_newRoles hn

end BebaCtrl.Stp
