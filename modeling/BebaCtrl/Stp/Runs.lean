import BebaCtrl.Lib.History
import BebaCtrl.Stp.RoleInvariant

/-!
# Runs of a bridge

The application handles one packet or port status message after the other; timers start threads of
their own. Whenever none of these is running, the ports should have the roles that follow from the
messages that are stored (`Settled`).

They do as long as no two handlers run at the same time and no port status message takes a role away
(`Orderly`): a port that is said to be up becomes designated, whatever it has stored, and a root
port that is added once more loses its message.
-/

namespace BebaCtrl.Stp

open History List

/-- A message to the application. -/
inductive BridgeEvent where
  | portAdd (new : NewPort)
  | portDelete (portNo : ℕ)
  /-- The port is modified, and its link is up. -/
  | linkUp (portNo : ℕ)
  | linkDown (portNo : ℕ)
  | packetIn (inPortNo : ℕ) (bpduPkt : ConfigurationBPDUs)

def BridgeEvent.handler : BridgeEvent → Coop Shared Unit
  | portAdd new => Handler.portAdd new
  | portDelete portNo => Handler.portDelete portNo
  | linkUp portNo => Handler.linkUp portNo
  | linkDown portNo => Handler.linkDown portNo
  | packetIn inPortNo bpduPkt => Handler.packetIn inPortNo bpduPkt

inductive BridgeTimer where
  /-- No packet has come at some port for too long. -/
  | waitBpdu
  | forwardDelay (portNo : ℕ)

def BridgeTimer.handler : BridgeTimer → Coop Shared Unit
  | waitBpdu => Handler.recalculateSpanningTree true
  | forwardDelay portNo => Handler.stateMachine portNo

structure BridgeSystem where
  shared : Shared
  /-- The event that the application handles. -/
  app : Option (Coop Shared Unit)
  /-- What timers have started. -/
  timers : List (Coop Shared Unit)

inductive BridgeStep where
  | handle (event : BridgeEvent)
  | expire (timer : BridgeTimer)
  /-- A thread goes on to its next switch point. -/
  | resumeApp
  | resumeTimer (i : ℕ)

namespace BridgeSystem

/-- An event waits in a queue while the application handles another one. -/
def step (sys : BridgeSystem) : BridgeStep → BridgeSystem
  | .handle event =>
    match sys.app with
    | some _ => sys
    | none =>
      let (next, shared) := event.handler.advance sys.shared
      { sys with shared, app := next }
  | .expire timer =>
    let (next, shared) := timer.handler.advance sys.shared
    { sys with shared, timers := sys.timers ++ next.toList }
  | .resumeApp =>
    match sys.app with
    | none => sys
    | some thread =>
      let (next, shared) := thread.advance sys.shared
      { sys with shared, app := next }
  | .resumeTimer i =>
    match sys.timers[i]? with
    | none => sys
    | some thread =>
      let (next, shared) := thread.advance sys.shared
      { sys with shared, timers := sys.timers.take i ++ next.toList ++ sys.timers.drop (i + 1) }

/-- No handler is running. -/
def Idle (sys : BridgeSystem) : Prop := sys.app = none ∧ sys.timers = []

end BridgeSystem

/-- A bridge as its constructor makes it, before its ports are added. -/
def Bridge.start (bridgeId : BridgeId) (bridgeTimes : Times) : Bridge where
  bridgeId := bridgeId
  bridgeTimes := bridgeTimes
  rootPriority := ⟨bridgeId, 0, none⟩
  rootTimes := bridgeTimes
  ports := ∅

/-- The constructor adds the ports of the switch as `port_add` does later. -/
def runBridge (bridgeId : BridgeId) (bridgeTimes : Times) (steps : List BridgeStep) :
    BridgeSystem :=
  steps.foldl BridgeSystem.step ⟨⟨.start bridgeId bridgeTimes, fun _ => 0⟩, none, []⟩

/-- A handler starts when no other one is running. A port is modified with its link up only if it is
disabled or designated, and one is added only if that does not disturb the roles. -/
def BridgeSystem.Orderly (sys : BridgeSystem) : BridgeStep → Prop
  | .handle event => sys.Idle ∧
    match event with
    | .portAdd new => new.portNo ≤ maxPortNo → new.Undisturbing sys.shared.bridge
    | .linkUp portNo =>
      ∀ p, sys.shared.bridge.ports.lookup portNo = some p → p.Enabled → p.role = .designated
    | .portDelete _ | .linkDown _ | .packetIn _ _ => True
  | .expire _ => sys.Idle
  | .resumeApp | .resumeTimer _ => True

/-! ### Runs -/

namespace BridgeSystem

variable {sys : BridgeSystem}

/-- The thread is the only one that is running. -/
def Only (sys : BridgeSystem) (thread : Coop Shared Unit) : Prop :=
  sys.app = some thread ∧ sys.timers = [] ∨ sys.app = none ∧ sys.timers = [thread]

/-- The roles are right, or will be when the only handler has ended. -/
def Inv (sys : BridgeSystem) : Prop :=
  sys.Idle ∧ sys.shared.bridge.Inv ∨
    ∃ thread, sys.Only thread ∧ (thread.finish sys.shared).bridge.Inv

theorem Inv.of_idle (h : sys.Inv) (hidle : sys.Idle) : sys.shared.bridge.Inv := by
  rcases h with ⟨-, h⟩ | ⟨thread, hthread | hthread, -⟩
  · exact h
  · cases hidle.1.symm.trans hthread.1
  · cases hidle.2.symm.trans hthread.2

/-- The application, or a timer, runs a thread that leaves the roles right. -/
theorem inv_advance {thread : Coop Shared Unit} {shared : Shared}
    (h : (thread.finish shared).bridge.Inv) :
    Inv ⟨(thread.advance shared).2, (thread.advance shared).1, []⟩ ∧
      Inv ⟨(thread.advance shared).2, none, (thread.advance shared).1.toList⟩ := by
  cases hadvance : thread.advance shared with
  | mk next shared' =>
    cases next with
    | none =>
      rw [Coop.finish_of_advance_none hadvance] at h
      exact ⟨.inl ⟨⟨rfl, rfl⟩, h⟩, .inl ⟨⟨rfl, rfl⟩, h⟩⟩
    | some next =>
      rw [← Coop.finish_of_advance hadvance] at h
      exact ⟨.inr ⟨next, .inl ⟨rfl, rfl⟩, h⟩, .inr ⟨next, .inr ⟨rfl, rfl⟩, h⟩⟩

theorem Inv.handle (h : sys.Inv) {event : BridgeEvent} (horderly : sys.Orderly (.handle event)) :
    (event.handler.finish sys.shared).bridge.Inv := by
  obtain ⟨hidle, hevent⟩ := horderly
  have hinv := h.of_idle hidle
  cases event with
  | portAdd new => exact Handler.inv_portAdd hinv hevent
  | portDelete portNo => exact Handler.inv_portDelete hinv
  | linkUp portNo => exact Handler.inv_linkUp hinv hevent
  | linkDown portNo => exact Handler.inv_linkDown hinv
  | packetIn inPortNo bpduPkt => exact Handler.inv_packetIn hinv

theorem Inv.expire (h : sys.Inv) {timer : BridgeTimer} (hidle : sys.Idle) :
    (timer.handler.finish sys.shared).bridge.Inv := by
  have hinv := h.of_idle hidle
  cases timer with
  | waitBpdu =>
    rw [BridgeTimer.handler, Coop.finish_eq_atomic, Handler.atomic_recalculateSpanningTree]
    exact hinv.wf.recalculated true
  | forwardDelay portNo => exact Handler.inv_stateMachine hinv

theorem Inv.step (h : sys.Inv) {step : BridgeStep} (horderly : sys.Orderly step) :
    (sys.step step).Inv := by
  obtain ⟨shared, app, timers⟩ := sys
  cases step with
  | handle event =>
    obtain ⟨rfl, rfl⟩ := horderly.1
    exact (inv_advance (h.handle horderly)).1
  | expire timer =>
    obtain ⟨rfl, rfl⟩ := horderly
    exact (inv_advance (h.expire ⟨rfl, rfl⟩)).2
  | resumeApp =>
    rcases h with ⟨⟨rfl, rfl⟩, h⟩ | ⟨thread, ⟨rfl, rfl⟩ | ⟨rfl, rfl⟩, h⟩
    · exact .inl ⟨⟨rfl, rfl⟩, h⟩
    · exact (inv_advance h).1
    · exact .inr ⟨thread, .inr ⟨rfl, rfl⟩, h⟩
  | resumeTimer i =>
    rcases h with ⟨⟨rfl, rfl⟩, h⟩ | ⟨thread, ⟨rfl, rfl⟩ | ⟨rfl, rfl⟩, h⟩
    · exact .inl ⟨⟨rfl, rfl⟩, h⟩
    · exact .inr ⟨thread, .inl ⟨rfl, rfl⟩, h⟩
    · cases i with
      | zero =>
        have hstep : BridgeSystem.step ⟨shared, none, [thread]⟩ (.resumeTimer 0) =
            ⟨(thread.advance shared).2, none, (thread.advance shared).1.toList⟩ := by
          simp [BridgeSystem.step]
        rw [hstep]
        exact (inv_advance h).2
      | succ i => exact .inr ⟨thread, .inr ⟨rfl, rfl⟩, h⟩

end BridgeSystem

section

variable (bridgeId : BridgeId) (bridgeTimes : Times)

theorem inv_runBridge {steps : List BridgeStep}
    (h : Throughout (fun before step =>
      (runBridge bridgeId bridgeTimes before).Orderly step) steps) :
    (runBridge bridgeId bridgeTimes steps).Inv := by
  refine inv_of_throughout (fun before => (runBridge bridgeId bridgeTimes before).Inv) ?_ ?_ h
  · refine .inl ⟨⟨rfl, rfl⟩, ?_, ?_, ?_⟩ <;> rintro n p ⟨⟩
  · intro before step hinv horderly
    rw [runBridge, foldl_concat, ← runBridge]
    exact hinv.step horderly

/-- In a run all of whose steps are orderly, the ports have the right roles whenever no handler is
running, and those that are not designated by what is stored do not forward. -/
theorem settled_of_orderly (steps : List BridgeStep)
    (h : Throughout (fun before step => (runBridge bridgeId bridgeTimes before).Orderly step) steps)
    (before after : List BridgeStep) (heq : steps = before ++ after)
    (hidle : (runBridge bridgeId bridgeTimes before).Idle) :
    (runBridge bridgeId bridgeTimes before).shared.bridge.Settled := by
  subst heq
  exact ((inv_runBridge bridgeId bridgeTimes (throughout_append.1 h).1).of_idle hidle).settled

end

/-! ### A bridge with two links to the root -/

/-- The identifier of the root. -/
def rootExampleId : BridgeId := ⟨32768, 0, 1⟩

def ownExampleId : BridgeId := ⟨32768, 0, 2⟩

def defaultTimes : Times := ⟨0, 20, 2, 15⟩

def examplePortAdd (n : ℕ) : BridgeEvent := .portAdd ⟨n, 128, 10, 0, true, []⟩

/-- What the root sends on its port `n`. -/
def exampleBpdu (n : ℕ) : ConfigurationBPDUs where
  flags := 0
  rootPriority := rootExampleId.priority
  rootSystemIdExtension := 0
  rootMacAddress := rootExampleId.macAddr
  rootPathCost := 10
  bridgePriority := rootExampleId.priority
  bridgeSystemIdExtension := 0
  bridgeMacAddress := rootExampleId.macAddr
  portPriority := 128
  portNumber := n
  messageAge := 1
  maxAge := 20
  helloTime := 2
  forwardDelay := 15

/-- The event is handled to its end. -/
def handled (event : BridgeEvent) : List BridgeStep := .handle event :: List.replicate 20 .resumeApp

/-- The forward delay of port `n` is over. -/
def expired (n : ℕ) : List BridgeStep :=
  .expire (.forwardDelay n) :: List.replicate 2 (.resumeTimer 0)

def twoLinksRun : List BridgeStep :=
  handled (examplePortAdd 1) ++ handled (examplePortAdd 2) ++
    handled (.packetIn 1 (exampleBpdu 1)) ++ handled (.packetIn 2 (exampleBpdu 2))

def loopRun : List BridgeStep := twoLinksRun ++ handled (.linkUp 2) ++ expired 2 ++ expired 2

theorem idle_iff {sys : BridgeSystem} :
    sys.Idle ↔ (sys.app.isNone && sys.timers.isEmpty) = true := by
  simp [BridgeSystem.Idle]

/-- The second port is not designated, but a port status message about it makes it so; then it
forwards, and there is a loop. -/
theorem not_settled_loopRun : (runBridge ownExampleId defaultTimes loopRun).Idle ∧
    ¬(runBridge ownExampleId defaultTimes loopRun).shared.bridge.Settled := by
  refine ⟨idle_iff.2 (by decide +kernel), fun h => ?_⟩
  have hport : ((runBridge ownExampleId defaultTimes loopRun).shared.bridge.ports.lookup 2).any
      (fun p => p.state = .forward) = true := by decide +kernel
  have hrole : let bridge := (runBridge ownExampleId defaultTimes loopRun).shared.bridge
      bridge.reset.spanningTreeAlgorithm.1.lookup 2 = some .nonDesignated := by decide +kernel
  obtain ⟨p, hp, hstate⟩ := (Option.any_eq_true ..).1 hport
  have hforward : p.state = .forward := of_decide_eq_true hstate
  have henabled : p.Enabled := by simp [Port.Enabled, hforward]
  exact (h 2 p hp henabled).2 hrole hforward

theorem orderly_handled {start : List BridgeStep → BridgeSystem} {event : BridgeEvent}
    (h : (start []).Orderly (.handle event)) :
    Throughout (fun before step => (start before).Orderly step) (handled event) := by
  refine throughout_cons.2 ⟨h, ?_⟩
  intro before step after heq
  have hmem : step ∈ List.replicate 20 BridgeStep.resumeApp := by
    rw [heq]
    simp
  rw [eq_of_mem_replicate hmem]
  trivial

/-- Nothing has been received yet. -/
theorem undisturbing_of_candidates {b : Bridge} {new : NewPort} (hnew : new.portNo ∉ b.ports)
    (h : b.candidates.isEmpty = true) : new.Undisturbing b := by
  unfold NewPort.Undisturbing
  rw [if_neg hnew]
  intro r root m n p m' hroot _ hm
  have hmem : ⟨r, m.1, m.2⟩ ∈ b.candidates := by
    unfold Port.offer at hm
    split at hm
    next henabled => exact Bridge.mem_candidates.2 ⟨root, hroot, henabled, hm⟩
    next => cases hm
  rw [isEmpty_iff.1 h] at hmem
  cases hmem

theorem orderly_twoLinksRun : Throughout (fun before step =>
    (runBridge ownExampleId defaultTimes before).Orderly step) twoLinksRun := by
  unfold twoLinksRun
  simp only [throughout_append]
  refine ⟨⟨⟨?_, ?_⟩, ?_⟩, ?_⟩ <;> apply orderly_handled
  · exact ⟨⟨rfl, rfl⟩, fun _ => undisturbing_of_candidates (by decide) rfl⟩
  · exact ⟨idle_iff.2 (by decide +kernel), fun _ =>
      undisturbing_of_candidates (by decide +kernel) (by decide +kernel)⟩
  · exact ⟨idle_iff.2 (by decide +kernel), trivial⟩
  · exact ⟨idle_iff.2 (by decide +kernel), trivial⟩

/-- Without that message the roles are right. -/
theorem settled_twoLinksRun : (runBridge ownExampleId defaultTimes twoLinksRun).Idle ∧
    (runBridge ownExampleId defaultTimes twoLinksRun).shared.bridge.Settled := by
  have hidle : (runBridge ownExampleId defaultTimes twoLinksRun).Idle :=
    idle_iff.2 (by decide +kernel)
  exact ⟨hidle, settled_of_orderly ownExampleId defaultTimes twoLinksRun orderly_twoLinksRun
    twoLinksRun [] (append_nil _).symm hidle⟩

end BebaCtrl.Stp
