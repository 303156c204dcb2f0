import Mathlib.Data.Prod.Lex
import BebaCtrl.Lib.Dict
import BebaCtrl.Stp.Bpdu

/-!
# Port roles

How a bridge computes the roles of its ports from the messages that it has stored. The root port is
the one with the best message, if that is about a better root than the bridge itself; a port is
designated if the bridge would send a better message there than it has received.

A port is kept under its number, so the number is not repeated in the port.
-/

namespace BebaCtrl.Stp

open List AList Dict

/-- The result of a comparison of priorities. -/
inductive CmpResult where
  | superior
  | repeated
  | inferior
  deriving DecidableEq, Repr

inductive PortRole where
  | designated
  | root
  | nonDesignated
  deriving DecidableEq, Repr

inductive PortState where
  | disable
  | block
  | listen
  | learn
  | forward
  deriving DecidableEq, Repr

/-- The priority that came with a message. -/
structure Message where
  rootId : BridgeId
  rootPathCost : ℤ
  designatedBridgeId : BridgeId
  designatedPortId : PortId
  deriving DecidableEq

/-- A priority; that of the bridge itself has no designated bridge and port. -/
structure Priority where
  rootId : BridgeId
  rootPathCost : ℤ
  designated : Option (BridgeId × PortId)
  deriving DecidableEq

def Message.priority (m : Message) : Priority :=
  ⟨m.rootId, m.rootPathCost, some (m.designatedBridgeId, m.designatedPortId)⟩

structure Port where
  /-- The priority of its identifier. -/
  priority : ℤ
  pathCost : ℤ
  hwAddr : MacAddr
  configEnable : Bool
  state : PortState
  role : PortRole
  /-- `designated_priority` and `designated_times`, which are set together. -/
  designated : Option (Message × Times)
  portPriority : Priority
  portTimes : Times
  deriving DecidableEq

def Port.Enabled (p : Port) : Prop := p.state ≠ .disable

instance (p : Port) : Decidable p.Enabled := inferInstanceAs (Decidable (_ ≠ _))

/-- The message that counts for the choice of the root port. -/
def Port.offer (p : Port) : Option (Message × Times) := if p.Enabled then p.designated else none

structure Bridge where
  bridgeId : BridgeId
  bridgeTimes : Times
  rootPriority : Priority
  rootTimes : Times
  ports : Dict ℕ Port

/-! ### Messages -/

/-- The priority that a port reads from a packet. -/
def Message.ofBpdu (bpdu : ConfigurationBPDUs) : Message :=
  ⟨bpdu.rootId, bpdu.rootPathCost, bpdu.bridgeId, bpdu.portId⟩

def Times.ofBpdu (bpdu : ConfigurationBPDUs) : Times :=
  ⟨bpdu.messageAge, bpdu.maxAge, bpdu.helloTime, bpdu.forwardDelay⟩

/-- The packet that the port with number `portNo` sends; the extensions of the identifiers are left
at their default. -/
def Port.configBpdu (p : Port) (bridgeId : BridgeId) (portNo flags : ℕ) : ConfigurationBPDUs where
  flags := flags
  rootPriority := p.portPriority.rootId.priority
  rootSystemIdExtension := 0
  rootMacAddress := p.portPriority.rootId.macAddr
  rootPathCost := p.portPriority.rootPathCost + p.pathCost
  bridgePriority := bridgeId.priority
  bridgeSystemIdExtension := 0
  bridgeMacAddress := bridgeId.macAddr
  portPriority := p.priority
  portNumber := portNo
  messageAge := p.portTimes.messageAge + 1
  maxAge := p.portTimes.maxAge
  helloTime := p.portTimes.helloTime
  forwardDelay := p.portTimes.forwardDelay

/-- `Port._generate_config_bpdu`, without the headers around the packet. -/
def Port.generateConfigBpdu (p : Port) (bridgeId : BridgeId) (portNo flags : ℕ) :
    PyResult Bytes := do
  (p.configBpdu bridgeId portNo flags).checkParameters
  (p.configBpdu bridgeId portNo flags).serialize

/-- The port at the other end of a link reads the packet that is generated. -/
theorem Port.parser_generateConfigBpdu {p : Port} {bridgeId : BridgeId} {portNo flags : ℕ}
    {data : Bytes} (hno : portNo ≤ maxPortNo)
    (h : p.generateConfigBpdu bridgeId portNo flags = .ok data) :
    ConfigurationBPDUs.parser data = .ok (p.configBpdu bridgeId portNo flags) := by
  obtain ⟨_, hcheck, hdata⟩ := bind_eq_ok.1 h
  exact ConfigurationBPDUs.parser_serialize hcheck (by simp [configBpdu]) (by simp [configBpdu]) hno
    hdata

/-! ### Comparisons -/

/-- `Stp._cmp_value` -/
def cmpValue (value1 value2 : ℤ) : CmpResult :=
  if value1 < value2 then .superior else if value1 = value2 then .repeated else .inferior

/-- `Stp.compare_root_path` -/
def compareRootPath (pathCost1 pathCost2 bridgeId1 bridgeId2 portId1 portId2 : ℤ) : CmpResult :=
  match cmpValue pathCost1 pathCost2 with
  | .repeated =>
    match cmpValue bridgeId1 bridgeId2 with
    | .repeated => cmpValue portId1 portId2
    | result => result
  | result => result

/-- The order in which root paths are compared. -/
def pathKey (pathCost bridgeId portId : ℤ) : ℤ ×ₗ ℤ ×ₗ ℤ :=
  toLex (pathCost, toLex (bridgeId, portId))

theorem compareRootPath_eq_superior {c c' b b' p p' : ℤ} :
    compareRootPath c c' b b' p p' = .superior ↔ pathKey c b p < pathKey c' b' p' := by
  simp only [pathKey, Prod.Lex.toLex_lt_toLex, compareRootPath, cmpValue]
  grind

/-- The order in which messages are compared. -/
def Message.key (m : Message) : ℤ ×ₗ ℤ ×ₗ ℤ ×ₗ ℤ :=
  toLex (m.rootId.value,
    pathKey m.rootPathCost m.designatedBridgeId.value m.designatedPortId.value)

namespace Bridge

/-! ### The root port -/

/-- How the message of a port compares with the best priority so far. -/
def compareRoot (rootMsg : Priority) (portMsg : Message) : CmpResult :=
  if portMsg.rootId.value < rootMsg.rootId.value then .superior
  else if rootMsg.rootId.value = portMsg.rootId.value then
    match rootMsg.designated with
    | none => .inferior
    | some (bridgeId, portId) =>
      compareRootPath portMsg.rootPathCost rootMsg.rootPathCost portMsg.designatedBridgeId.value
        bridgeId.value portMsg.designatedPortId.value portId.value
  else .inferior

/-- A port that can be the root port: its number and what it has stored. -/
structure Candidate where
  portNo : ℕ
  msg : Message
  times : Times

/-- The ports that are not disabled and have a message. -/
def candidates (b : Bridge) : List Candidate :=
  b.ports.entries.filterMap fun entry =>
    if entry.2.Enabled then entry.2.designated.map fun stored => ⟨entry.1, stored.1, stored.2⟩
    else none

/-- The priority to compare with. -/
def rootMsg (b : Bridge) : Option Candidate → Priority
  | none => b.rootPriority
  | some rootPort => rootPort.msg.priority

/-- `_select_root_port` -/
def selectRootPort (b : Bridge) : Option Candidate :=
  b.candidates.foldl (fun rootPort port =>
    if compareRoot (b.rootMsg rootPort) port.msg = .superior then some port else rootPort) none

/-! ### Designated ports -/

/-- The message that the port has received is not about the same root, or not as good as the one
that the bridge would send. -/
def IsDesignated (b : Bridge) (rootMsg : Message) (portNo : ℕ) (port : Port) : Prop :=
  ∀ stored ∈ port.designated, stored.1.rootId.value = rootMsg.rootId.value →
    compareRootPath rootMsg.rootPathCost (stored.1.rootPathCost - port.pathCost) b.bridgeId.value
      stored.1.designatedBridgeId.value (PortId.mk port.priority portNo).value
      stored.1.designatedPortId.value = .superior

instance (b : Bridge) (rootMsg : Message) (portNo : ℕ) (port : Port) :
    Decidable (b.IsDesignated rootMsg portNo port) :=
  inferInstanceAs (Decidable (∀ stored ∈ port.designated, _))

/-- `_select_designated_port` -/
def selectDesignatedPort (b : Bridge) (rootPort : Candidate) : List ℕ :=
  (b.ports.entries.filter fun entry =>
    entry.2.Enabled ∧ entry.1 ≠ rootPort.portNo ∧ b.IsDesignated rootPort.msg entry.1 entry.2).map
    Sigma.fst

/-- The numbers of the ports that are not disabled. -/
def enabledPorts (b : Bridge) : List ℕ :=
  (b.ports.entries.filter fun entry => entry.2.Enabled).map Sigma.fst

/-- `roles.setdefault(port_no, role)` -/
def setDefault (roles : Dict ℕ PortRole) (portNo : ℕ) (role : PortRole) : Dict ℕ PortRole :=
  if portNo ∈ roles then roles else roles.insert portNo role

/-- `_spanning_tree_algorithm` -/
def spanningTreeAlgorithm (b : Bridge) : Dict ℕ PortRole × Priority × Times :=
  match b.selectRootPort with
  | none =>
    (b.enabledPorts.foldl (fun roles portNo => roles.insert portNo .designated) ∅, b.rootPriority,
      b.rootTimes)
  | some rootPort =>
    let roles := (b.selectDesignatedPort rootPort).foldl
      (fun roles portNo => roles.insert portNo .designated)
      ((∅ : Dict ℕ PortRole).insert rootPort.portNo .root)
    (b.enabledPorts.foldl (fun roles portNo => setDefault roles portNo .nonDesignated) roles,
      rootPort.msg.priority, rootPort.times)

/-- The bridge as it compares itself with the messages: before the roles are computed, it is taken
for the root. -/
def reset (b : Bridge) : Bridge :=
  { b with rootPriority := ⟨b.bridgeId, 0, none⟩, rootTimes := b.bridgeTimes }

/-! ### What is computed -/

variable {b : Bridge} {n : ℕ} {p : Port}

theorem mem_candidates {c : Candidate} : c ∈ b.candidates ↔
    ∃ p, b.ports.lookup c.portNo = some p ∧ p.Enabled ∧ p.designated = some (c.msg, c.times) := by
  simp only [candidates, mem_filterMap, Sigma.exists, mem_entries]
  constructor
  · rintro ⟨n, p, hp, hc⟩
    split at hc
    next henabled =>
      obtain ⟨stored, hstored, rfl⟩ := Option.map_eq_some_iff.1 hc
      exact ⟨p, hp, henabled, hstored⟩
    next => cases hc
  · rintro ⟨p, hp, henabled, hstored⟩
    exact ⟨c.portNo, p, hp, by rw [if_pos henabled, hstored]; rfl⟩

theorem compareRoot_own {own : Priority} (h : own.designated = none) (m : Message) :
    compareRoot own m = .superior ↔ m.rootId.value < own.rootId.value := by
  simp only [compareRoot, h]
  grind

theorem compareRoot_priority (m m' : Message) :
    compareRoot m.priority m' = .superior ↔ m'.key < m.key := by
  simp only [compareRoot, Message.priority, Message.key, Prod.Lex.toLex_lt_toLex,
    ← compareRootPath_eq_superior]
  grind

theorem rootId_le_of_key_le {m m' : Message} (h : m.key ≤ m'.key) :
    m.rootId.value ≤ m'.rootId.value := by
  rcases (Prod.Lex.toLex_le_toLex ..).1 h with h | h
  · exact h.le
  · exact h.1.le

/-- What the loop over the ports has found: the first of the best messages. -/
def IsBest (b : Bridge) (cs : List Candidate) : Option Candidate → Prop
  | none => ∀ c ∈ cs, b.rootPriority.rootId.value ≤ c.msg.rootId.value
  | some r => r.msg.rootId.value < b.rootPriority.rootId.value ∧
      ∃ before after, cs = before ++ r :: after ∧ (∀ c ∈ before, r.msg.key < c.msg.key) ∧
        ∀ c ∈ after, r.msg.key ≤ c.msg.key

theorem selectRootPort_spec (h : b.rootPriority.designated = none) :
    b.IsBest b.candidates b.selectRootPort := by
  unfold selectRootPort
  induction b.candidates using reverseRecOn with
  | nil => simp [IsBest]
  | append_singleton cs c ih =>
    rw [foldl_concat]
    generalize cs.foldl _ none = best at ih
    cases best with
    | none =>
      simp only [rootMsg, compareRoot_own h]
      split
      next hlt =>
        refine ⟨hlt, cs, [], rfl, fun c' hc' => ?_, by simp⟩
        exact (Prod.Lex.toLex_lt_toLex ..).2 (.inl (hlt.trans_le (ih c' hc')))
      next hle =>
        intro c' hc'
        rcases mem_append.1 hc' with hc' | hc'
        · exact ih c' hc'
        · rw [mem_singleton.1 hc']
          exact not_lt.1 hle
    | some r =>
      obtain ⟨hroot, before, after, rfl, hbefore, hafter⟩ := ih
      simp only [rootMsg, compareRoot_priority]
      split
      next hlt =>
        refine ⟨(rootId_le_of_key_le hlt.le).trans_lt hroot, _, [], rfl, fun c' hc' => ?_, by simp⟩
        rcases mem_append.1 hc' with hc' | hc'
        · exact hlt.trans (hbefore c' hc')
        · rcases mem_cons.1 hc' with rfl | hc'
          · exact hlt
          · exact hlt.trans_le (hafter c' hc')
      next hle =>
        refine ⟨hroot, before, after ++ [c], by simp, hbefore, fun c' hc' => ?_⟩
        rcases mem_append.1 hc' with hc' | hc'
        · exact hafter c' hc'
        · rw [mem_singleton.1 hc']
          exact not_lt.1 hle

namespace IsBest

variable {cs : List Candidate} {r : Candidate} {o o' : Option Candidate}

theorem mem (h : b.IsBest cs (some r)) : r ∈ cs := by
  obtain ⟨-, before, after, rfl, -⟩ := h
  simp

theorem key_le (h : b.IsBest cs (some r)) {c : Candidate} (hc : c ∈ cs) :
    r.msg.key ≤ c.msg.key := by
  obtain ⟨-, before, after, rfl, hbefore, hafter⟩ := h
  rcases mem_append.1 hc with hc | hc
  · exact (hbefore c hc).le
  · rcases mem_cons.1 hc with rfl | hc
    · exact le_rfl
    · exact hafter c hc

theorem filter (h : b.IsBest cs o) {P : Candidate → Bool} (ho : ∀ r ∈ o, P r) :
    b.IsBest (cs.filter P) o := by
  cases o with
  | none => exact fun c hc => h c (mem_of_mem_filter hc)
  | some r =>
    obtain ⟨hroot, before, after, rfl, hbefore, hafter⟩ := h
    refine ⟨hroot, before.filter P, after.filter P, ?_, ?_, ?_⟩
    · rw [filter_append, filter_cons_of_pos (ho r rfl)]
    · exact fun c hc => hbefore c (mem_of_mem_filter hc)
    · exact fun c hc => hafter c (mem_of_mem_filter hc)

theorem unique (h : b.IsBest cs o) (h' : b.IsBest cs o') : o = o' := by
  -- The first of two decompositions that differ has the second root port behind its own.
  have key : ∀ {r r' : Candidate} {before after tail after' : List Candidate},
      r :: after = tail ++ r' :: after' → (∀ c ∈ before ++ tail, r'.msg.key < c.msg.key) →
      (∀ c ∈ after, r.msg.key ≤ c.msg.key) → r = r' := by
    intro r r' before after tail after' heq hbefore hafter
    cases tail with
    | nil => exact (cons.inj heq).1
    | cons c tail =>
      obtain ⟨rfl, rfl⟩ := cons.inj heq
      exact absurd (hbefore r (by simp)) (hafter r' (by simp)).not_gt
  cases o with
  | none =>
    cases o' with
    | none => rfl
    | some r' => exact absurd (h r' h'.mem) h'.1.not_ge
  | some r =>
    cases o' with
    | none => exact absurd (h' r h.mem) h.1.not_ge
    | some r' =>
      obtain ⟨-, before, after, rfl, hbefore, hafter⟩ := h
      obtain ⟨-, before', after', heq, hbefore', hafter'⟩ := h'
      rcases append_eq_append_iff.1 heq with ⟨tail, rfl, hcons⟩ | ⟨tail, rfl, hcons⟩
      · rw [key hcons hbefore' hafter]
      · rw [key hcons hbefore hafter']

theorem congr {b' : Bridge} (hid : b.rootPriority.rootId = b'.rootPriority.rootId)
    (h : b.IsBest cs o) : b'.IsBest cs o := by
  cases o <;> simpa only [IsBest, hid] using h

/-- A message that is better than all others is the first of the best in any order. -/
theorem of_forall (hmem : r ∈ cs) (hroot : r.msg.rootId.value < b.rootPriority.rootId.value)
    (h : ∀ c ∈ cs, c = r ∨ r.msg.key < c.msg.key) : b.IsBest cs (some r) := by
  obtain ⟨before, after, rfl, hnotMem⟩ := eq_append_cons_of_mem hmem
  refine ⟨hroot, before, after, rfl, fun c hc => ?_, fun c hc => ?_⟩
  · rcases h c (by simp [hc]) with rfl | hlt
    · exact absurd hc hnotMem
    · exact hlt
  · rcases h c (by simp [hc]) with rfl | hlt
    · exact le_rfl
    · exact hlt.le

end IsBest

theorem selectRootPort_eq {o : Option Candidate} (h : b.IsBest b.candidates o)
    (hown : b.rootPriority.designated = none) : b.selectRootPort = o :=
  (selectRootPort_spec hown).unique h

theorem spanningTreeAlgorithm_priority :
    b.spanningTreeAlgorithm.2.1 = b.rootMsg b.selectRootPort := by
  unfold spanningTreeAlgorithm
  cases b.selectRootPort <;> rfl

theorem lookup_foldl_setDefault (ns : List ℕ) (role : PortRole) (roles : Dict ℕ PortRole) (n : ℕ) :
    (ns.foldl (fun roles portNo => setDefault roles portNo role) roles).lookup n =
      (roles.lookup n).or (if n ∈ ns then some role else none) := by
  induction ns generalizing roles with
  | nil => simp
  | cons n' ns ih =>
    rw [foldl_cons, ih, setDefault]
    split
    next hmem =>
      obtain ⟨role', hrole'⟩ := mem_iff_lookup.1 hmem
      grind
    next hmem =>
      rw [Dict.lookup_insert]
      have hnone := lookup_eq_none.2 hmem
      grind

/-- The role of a port. -/
def roleOf (b : Bridge) (n : ℕ) (p : Port) : PortRole :=
  match b.selectRootPort with
  | none => .designated
  | some rootPort =>
    if n = rootPort.portNo then .root
    else if b.IsDesignated rootPort.msg n p then .designated else .nonDesignated

theorem roleOf_eq_root_iff :
    b.roleOf n p = .root ↔ ∃ r, b.selectRootPort = some r ∧ n = r.portNo := by
  unfold roleOf
  cases b.selectRootPort with
  | none => simp
  | some r =>
    grind

theorem mem_enabledPorts : n ∈ b.enabledPorts ↔ ∃ p, b.ports.lookup n = some p ∧ p.Enabled := by
  simp [enabledPorts, mem_entries]

theorem lookup_spanningTreeAlgorithm (hp : b.ports.lookup n = some p) (henabled : p.Enabled) :
    b.spanningTreeAlgorithm.1.lookup n = some (b.roleOf n p) := by
  have hmem : n ∈ b.enabledPorts := mem_enabledPorts.2 ⟨p, hp, henabled⟩
  unfold spanningTreeAlgorithm roleOf
  cases b.selectRootPort with
  | none => exact lookup_foldl_insert.trans (if_pos hmem)
  | some rootPort =>
    have hdesignated : n ∈ b.selectDesignatedPort rootPort ↔
        n ≠ rootPort.portNo ∧ b.IsDesignated rootPort.msg n p := by
      simp [selectDesignatedPort, mem_entries, hp, henabled]
    rw [lookup_foldl_setDefault, Dict.lookup_foldl_insert, Dict.lookup_insert, lookup_empty]
    grind

theorem mem_ports_of_mem_roles (hown : b.rootPriority.designated = none)
    (h : n ∈ b.spanningTreeAlgorithm.1) : n ∈ b.ports := by
  have henabled : n ∈ b.enabledPorts → n ∈ b.ports := by
    intro hn
    obtain ⟨p, hp, -⟩ := mem_enabledPorts.1 hn
    exact mem_of_lookup hp
  have hbest := selectRootPort_spec hown
  obtain ⟨role, hrole⟩ := mem_iff_lookup.1 h
  unfold spanningTreeAlgorithm at hrole
  cases hr : b.selectRootPort with
  | none =>
    simp only [hr, Dict.lookup_foldl_insert, lookup_empty] at hrole
    grind
  | some r =>
    rw [hr] at hbest
    obtain ⟨p, hp, -⟩ := mem_candidates.1 hbest.mem
    have hroot : r.portNo ∈ b.ports := mem_of_lookup hp
    have hdesignated : n ∈ b.selectDesignatedPort r → n ∈ b.enabledPorts := by
      simp only [selectDesignatedPort, enabledPorts, mem_map, mem_filter]
      grind
    simp only [hr, lookup_foldl_setDefault, Dict.lookup_foldl_insert, Dict.lookup_insert,
      lookup_empty] at hrole
    grind

/-! ### What the roles depend on -/

theorem candidates_eq : b.candidates = b.ports.entries.filterMap fun entry =>
    entry.2.offer.map fun stored => ⟨entry.1, stored.1, stored.2⟩ := by
  unfold candidates
  congr 1
  funext entry
  unfold Port.offer
  split <;> rfl

theorem roleOf_congr {b' : Bridge} {p' : Port} (hid : b.bridgeId = b'.bridgeId)
    (hroot : b.selectRootPort = b'.selectRootPort) (hdesignated : p.designated = p'.designated)
    (hcost : p.pathCost = p'.pathCost) (hpriority : p.priority = p'.priority) :
    b.roleOf n p = b'.roleOf n p' := by
  have hiff : ∀ m, b.IsDesignated m n p ↔ b'.IsDesignated m n p' := by
    intro m
    simp only [IsDesignated, hid, hdesignated, hcost, hpriority]
  simp only [roleOf, hroot, hiff]

/-- A port that has stored nothing is designated. -/
theorem roleOf_eq_designated (hown : b.rootPriority.designated = none)
    (hp : b.ports.lookup n = some p) (hnone : p.designated = none) :
    b.roleOf n p = .designated := by
  have hbest := selectRootPort_spec hown
  unfold roleOf
  cases hr : b.selectRootPort with
  | none => rfl
  | some r =>
    rw [hr] at hbest
    obtain ⟨p', hp', -, hstored⟩ := mem_candidates.1 hbest.mem
    have hne : n ≠ r.portNo := by
      rintro rfl
      rw [hp] at hp'
      cases hp'
      rw [hnone] at hstored
      cases hstored
    have hdesignated : b.IsDesignated r.msg n p := by simp [IsDesignated, hnone]
    dsimp only
    rw [if_neg hne, if_pos hdesignated]

theorem selectRootPort_reset_congr {b' : Bridge} (hid : b.bridgeId = b'.bridgeId)
    (hcandidates : b.candidates = b'.candidates) :
    b.reset.selectRootPort = b'.reset.selectRootPort := by
  have hmsg : b.reset.rootMsg = b'.reset.rootMsg := by
    funext o
    cases o with
    | none => simp [rootMsg, reset, hid]
    | some r => rfl
  unfold selectRootPort
  rw [hmsg]
  change b.candidates.foldl _ none = b'.candidates.foldl _ none
  rw [hcandidates]

end Bridge

end BebaCtrl.Stp
