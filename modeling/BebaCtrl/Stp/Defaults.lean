import BebaCtrl.Lib.Dict
import BebaCtrl.Lib.History
import BebaCtrl.Lib.State
import BebaCtrl.Stp.Basic

/-!
# The settings of bridges and ports

The constructors of `Bridge` and `Port` fill in what a configuration omits from a dictionary of
default values. They work on the dictionary of the class, not on a copy of it, so what one bridge is
configured with, or what one port finds out about its speed, stays for those that are created later.
The constructor of `Port` also leaves out to read the priority and the path cost of its
configuration.

`asConfigured_iff` says for which sequences of bridges and ports this makes no difference.
-/

namespace BebaCtrl.Stp

open History List PyM

/-! ### Configurations -/

inductive BridgeKey where
  | priority
  | sysExtId
  | maxAge
  | helloTime
  | fwdDelay
  deriving DecidableEq, Repr

def BridgeKey.Value : BridgeKey → Type
  | priority | sysExtId => ℤ
  | maxAge | helloTime | fwdDelay => ℚ

/-- Each field may be omitted. -/
abbrev BridgeConf := (k : BridgeKey) → Option k.Value

structure PortConf where
  priority : Option ℤ
  pathCost : Option ℤ
  enable : Option Bool

/-- The entry of a bridge in the configuration; it is empty for a bridge without one. -/
structure Config where
  bridge : BridgeConf
  ports : Dict ℕ PortConf

def Config.port (config : Config) (portNo : ℕ) : PortConf :=
  (config.ports.lookup portNo).getD ⟨none, none, none⟩

structure PortValues where
  priority : ℤ
  pathCost : ℤ
  enable : Bool

/-- The dictionaries `Bridge._DEFAULT_VALUE` and `Port._DEFAULT_VALUE`. -/
structure Defaults where
  bridge : (k : BridgeKey) → k.Value
  port : PortValues

/-- What the classes define. -/
def defaultValue : Defaults where
  bridge
    | .priority => (32768 : ℤ)
    | .sysExtId => (0 : ℤ)
    | .maxAge => (20 : ℚ)
    | .helloTime => (2 : ℚ)
    | .fwdDelay => (15 : ℚ)
  port := ⟨128, 2000000, true⟩

/-- The rates in decreasing order, with the path costs of links of that speed. -/
def pathCosts : List (ℕ × ℤ) :=
  [(1 <<< 6, 2000), (1 <<< 5, 20000), (1 <<< 4, 20000), (1 <<< 3, 200000), (1 <<< 2, 200000),
    (1 <<< 1, 2000000), (1 <<< 0, 2000000)]

/-- The path cost according to the link speed, if the port has one of the rates. -/
def OfPort.linkCost (ofport : OfPort) : Option ℤ :=
  (pathCosts.find? fun rate => ofport.curr &&& rate.1 ≠ 0).map Prod.snd

/-! ### Constructors -/

/-- What a port keeps of its settings. -/
structure PortSettings where
  portId : PortId
  pathCost : ℤ
  configEnable : Bool
  deriving DecidableEq

structure BridgeSettings where
  bridgeId : BridgeId
  bridgeTimes : Times
  deriving DecidableEq

def BridgeSettings.ofValues (values : (k : BridgeKey) → k.Value) (systemId : MacAddr) :
    BridgeSettings where
  bridgeId := ⟨values .priority, values .sysExtId, systemId⟩
  bridgeTimes := ⟨0, values .maxAge, values .helloTime, values .fwdDelay⟩

/-- The loop over the items of a configuration. -/
def BridgeConf.update (conf : BridgeConf) (values : (k : BridgeKey) → k.Value) :
    (k : BridgeKey) → k.Value := fun k => (conf k).getD (values k)

/-- `Port.__init__` -/
def Port.init (config : PortConf) (ofport : OfPort) : PyM Defaults PortSettings := do
  let configEnable := config.enable.getD (← get).port.enable
  if let some cost := ofport.linkCost then
    modify ({ · with port.pathCost := cost })
  -- The loop that follows goes over the dictionary itself, not over the configuration.
  let values := (← get).port
  return ⟨⟨values.priority, ofport.portNo⟩, values.pathCost, configEnable⟩

/-- `Bridge.port_add`; a port with a reserved number is left out. -/
def Bridge.portAdd (config : Config) (ofport : OfPort) : PyM Defaults (List PortSettings) := do
  if ofport.portNo ≤ maxPortNo then
    return [← Port.init (config.port ofport.portNo) ofport]
  else
    return []

def Bridge.portAdds (config : Config) : List OfPort → PyM Defaults (List PortSettings)
  | [] => return []
  | ofport :: rest => do
    let port ← Bridge.portAdd config ofport
    return port ++ (← Bridge.portAdds config rest)

/-- `Bridge.__init__`, for a switch with the ports `dpPorts`. -/
def Bridge.init (config : Config) (dpPorts : List OfPort) :
    PyM Defaults (BridgeSettings × List PortSettings) := do
  modify fun d => { d with bridge := config.bridge.update d.bridge }
  let values := (← get).bridge
  match dpPorts with
  | [] => throw .indexError
  | first :: _ => return (.ofValues values first.hwAddr, ← Bridge.portAdds config dpPorts)

/-! ### Sequences of bridges and ports -/

/-- A bridge with its ports is created, or a port that is added to a bridge with the given
configuration. -/
inductive Creation where
  | bridge (config : Config) (dpPorts : List OfPort)
  | portAdd (config : Config) (ofport : OfPort)

def Creation.create : Creation → PyM Defaults (Option BridgeSettings × List PortSettings)
  | bridge config dpPorts => do
    let (settings, ports) ← Bridge.init config dpPorts
    return (some settings, ports)
  | portAdd config ofport => return (none, ← Bridge.portAdd config ofport)

/-- The default values after the creations. -/
def defaultsAfter (creations : List Creation) : Defaults :=
  creations.foldl (fun d creation => (creation.create d).2) defaultValue

/-- The settings that a port should have: what is configured, and otherwise the default, which for
the path cost is that of the speed. -/
def PortConf.own (conf : PortConf) (ofport : OfPort) : PortSettings where
  portId := ⟨conf.priority.getD defaultValue.port.priority, ofport.portNo⟩
  pathCost := conf.pathCost.getD (ofport.linkCost.getD defaultValue.port.pathCost)
  configEnable := conf.enable.getD defaultValue.port.enable

def ownPorts (config : Config) (ofports : List OfPort) : List PortSettings :=
  (ofports.filter (·.portNo ≤ maxPortNo)).map fun ofport =>
    (config.port ofport.portNo).own ofport

/-- What should be created. -/
def Creation.own : Creation → Option BridgeSettings × List PortSettings
  | bridge config dpPorts =>
    (dpPorts.head?.map fun first =>
      .ofValues (config.bridge.update defaultValue.bridge) first.hwAddr, ownPorts config dpPorts)
  | portAdd config ofport => (none, ownPorts config [ofport])

/-- The settings of all that is created are those of its own configuration and port description. -/
def AsConfigured (creations : List Creation) : Prop :=
  Throughout (fun before creation =>
    ∀ made, (creation.create (defaultsAfter before)).1 = .ok made → made = creation.own) creations

/-! ### What is left behind -/

/-- One call of a constructor; `made` is false for a bridge of a switch without ports. -/
inductive Construct where
  | bridge (conf : BridgeConf) (made : Bool)
  | port (conf : PortConf) (ofport : OfPort)

def portConstructs (config : Config) (ofports : List OfPort) : List Construct :=
  (ofports.filter (·.portNo ≤ maxPortNo)).map fun ofport =>
    .port (config.port ofport.portNo) ofport

def Creation.constructs : Creation → List Construct
  | bridge config dpPorts =>
    .bridge config.bridge (!dpPorts.isEmpty) :: portConstructs config dpPorts
  | portAdd config ofport => portConstructs config [ofport]

/-- The value that a bridge was configured with. -/
def Construct.configured (k : BridgeKey) : Construct → Option k.Value
  | bridge conf _ => conf k
  | port _ _ => none

/-- The path cost of the speed of a port. -/
def Construct.linkCost : Construct → Option ℤ
  | bridge _ _ => none
  | port _ ofport => ofport.linkCost

/-- The last value that a bridge was configured with. -/
def lastConfigured (before : List Construct) (k : BridgeKey) : k.Value :=
  latest (Construct.configured k) (defaultValue.bridge k) before

/-- The path cost of the last port that had a known speed. -/
def lastLinkCost (before : List Construct) : ℤ :=
  latest Construct.linkCost defaultValue.port.pathCost before

/-- What a bridge is not configured with, the last bridge that was configured with it had the
default of. A port is not configured with another priority than the default, nor with another path
cost than it would have otherwise; and if its speed is not known, the last one that was known had
the default cost. -/
def Undisturbed (before : List Construct) : Construct → Prop
  | .bridge conf made =>
    made → ∀ k, conf k = none → lastConfigured before k = defaultValue.bridge k
  | .port conf ofport =>
    (∀ v ∈ conf.priority, v = defaultValue.port.priority) ∧
    match conf.pathCost with
    | some cost => cost = ofport.linkCost.getD (lastLinkCost before)
    | none => ofport.linkCost = none → lastLinkCost before = defaultValue.port.pathCost

namespace Construct

/-- The default values after a call. -/
def leave (d : Defaults) : Construct → Defaults
  | bridge conf _ => { d with bridge := conf.update d.bridge }
  | port _ ofport => { d with port.pathCost := ofport.linkCost.getD d.port.pathCost }

/-- The settings are the ones that they should be, when the default values are `d`. -/
def AsOwn (d : Defaults) : Construct → Prop
  | bridge conf made =>
    made → conf.update d.bridge = conf.update defaultValue.bridge
  | port conf ofport =>
    ⟨⟨d.port.priority, ofport.portNo⟩, ofport.linkCost.getD d.port.pathCost,
      conf.enable.getD d.port.enable⟩ = conf.own ofport

end Construct

theorem portInit_apply (conf : PortConf) (ofport : OfPort) (d : Defaults) :
    Port.init conf ofport d =
      (.ok ⟨⟨d.port.priority, ofport.portNo⟩, ofport.linkCost.getD d.port.pathCost,
        conf.enable.getD d.port.enable⟩, (Construct.port conf ofport).leave d) := by
  unfold Port.init
  dsimp only [Construct.leave]
  cases ofport.linkCost <;> rfl

/-- The ports of a list are created one after the other. -/
theorem portAdds_apply (config : Config) (ofports : List OfPort) (d : Defaults) :
    ∃ made, Bridge.portAdds config ofports d =
        (.ok made, (portConstructs config ofports).foldl Construct.leave d) ∧
      (made = ownPorts config ofports ↔ Throughout (fun before construct =>
        construct.AsOwn (before.foldl Construct.leave d)) (portConstructs config ofports)) := by
  induction ofports generalizing d with
  | nil => exact ⟨[], rfl, iff_of_true rfl throughout_nil⟩
  | cons ofport rest ih =>
    by_cases hno : ofport.portNo ≤ maxPortNo
    · have hcons : portConstructs config (ofport :: rest) =
          .port (config.port ofport.portNo) ofport :: portConstructs config rest := by
        simp [portConstructs, hno]
      have hown : ownPorts config (ofport :: rest) =
          (config.port ofport.portNo).own ofport :: ownPorts config rest := by
        simp [ownPorts, hno]
      obtain ⟨made, hmade, hiff⟩ := ih ((Construct.port (config.port ofport.portNo) ofport).leave d)
      have hinit := portInit_apply (config.port ofport.portNo) ofport d
      rw [hcons, hown, throughout_cons]
      refine ⟨_ :: made, ?_, cons_eq_cons.trans (and_congr_right fun _ => hiff)⟩
      rw [Bridge.portAdds, Bridge.portAdd, if_pos hno]
      refine (bind_of_ok (bind_of_ok hinit _) _).trans ?_
      exact bind_of_ok hmade _
    · have hcons : portConstructs config (ofport :: rest) = portConstructs config rest := by
        simp [portConstructs, hno]
      have hown : ownPorts config (ofport :: rest) = ownPorts config rest := by
        simp [ownPorts, hno]
      obtain ⟨made, hmade, hiff⟩ := ih d
      rw [hcons, hown]
      refine ⟨made, ?_, hiff⟩
      rw [Bridge.portAdds, Bridge.portAdd, if_neg hno]
      exact bind_of_ok hmade _

section

variable (before : List Construct)

theorem lastConfigured_concat (construct : Construct) (k : BridgeKey) :
    lastConfigured (before ++ [construct]) k =
      (construct.configured k).getD (lastConfigured before k) := latest_concat

theorem lastLinkCost_concat (construct : Construct) :
    lastLinkCost (before ++ [construct]) = construct.linkCost.getD (lastLinkCost before) :=
  latest_concat

/-- The default values are what was written last. -/
theorem foldl_leave : before.foldl Construct.leave defaultValue =
    ⟨lastConfigured before, { defaultValue.port with pathCost := lastLinkCost before }⟩ := by
  induction before using reverseRecOn with
  | nil => rfl
  | append_singleton before construct ih =>
    have hbridge := funext fun k => lastConfigured_concat before construct k
    rw [foldl_concat, ih, lastLinkCost_concat, hbridge]
    cases construct <;> rfl

theorem asOwn_iff_undisturbed (construct : Construct) :
    construct.AsOwn (before.foldl Construct.leave defaultValue) ↔ Undisturbed before construct := by
  rw [foldl_leave]
  cases construct with
  | bridge conf made =>
    refine imp_congr_right fun _ => ?_
    rw [funext_iff]
    refine forall_congr' fun k => ?_
    unfold BridgeConf.update
    cases conf k <;> simp
  | port conf ofport =>
    simp only [Construct.AsOwn, PortConf.own, Undisturbed, PortSettings.mk.injEq, PortId.mk.injEq,
      and_true]
    refine and_congr ?_ ?_
    · cases conf.priority with
      | none => simp
      | some v => simp [eq_comm]
    · cases conf.pathCost with
      | none => cases ofport.linkCost <;> simp
      | some cost => simp [eq_comm]

end

theorem ofValues_inj {values values' : (k : BridgeKey) → k.Value} {systemId : MacAddr} :
    BridgeSettings.ofValues values systemId = .ofValues values' systemId ↔ values = values' := by
  refine ⟨fun h => ?_, fun h => by rw [h]⟩
  obtain ⟨hid, htimes⟩ := BridgeSettings.mk.inj h
  obtain ⟨hpriority, hsysExtId, -⟩ := BridgeId.mk.inj hid
  obtain ⟨-, hmaxAge, hhelloTime, hfwdDelay⟩ := Times.mk.inj htimes
  funext k
  cases k <;> assumption

theorem portAdds_singleton (config : Config) (ofport : OfPort) (d : Defaults) :
    Bridge.portAdds config [ofport] d = Bridge.portAdd config ofport d := by
  cases hadd : Bridge.portAdd config ofport d with
  | mk r d' =>
    cases r with
    | error e => exact bind_of_error hadd _
    | ok made =>
      refine (bind_of_ok hadd _).trans ?_
      change (Except.ok (made ++ []), d') = _
      rw [append_nil]

theorem Creation.create_bridge_apply (config : Config) (first : OfPort) (rest : List OfPort)
    {d d' : Defaults} {made : List PortSettings}
    (h : Bridge.portAdds config (first :: rest) { d with bridge := config.bridge.update d.bridge } =
      (.ok made, d')) :
    (Creation.bridge config (first :: rest)).create d =
      (.ok (some (.ofValues (config.bridge.update d.bridge) first.hwAddr), made), d') := by
  have hinit : Bridge.init config (first :: rest) d =
      (.ok (.ofValues (config.bridge.update d.bridge) first.hwAddr, made), d') := bind_of_ok h _
  exact bind_of_ok hinit _

/-- What a creation leaves behind, and when it makes what it should. -/
theorem Creation.create_spec (creation : Creation) (d : Defaults) :
    (creation.create d).2 = creation.constructs.foldl Construct.leave d ∧
      ((∀ made, (creation.create d).1 = .ok made → made = creation.own) ↔
        Throughout (fun before construct => construct.AsOwn (before.foldl Construct.leave d))
          creation.constructs) := by
  cases creation with
  | bridge config dpPorts =>
    cases dpPorts with
    | nil =>
      refine ⟨rfl, iff_of_true ?_ (throughout_cons.2 ⟨?_, throughout_nil⟩)⟩
      · rintro made ⟨⟩
      · rintro ⟨⟩
    | cons first rest =>
      obtain ⟨made, hmade, hports⟩ := portAdds_apply config (first :: rest)
        { d with bridge := config.bridge.update d.bridge }
      have hcreate := create_bridge_apply config first rest hmade
      rw [hcreate]
      refine ⟨rfl, Iff.trans ?_ throughout_cons.symm⟩
      simp only [Except.ok.injEq, forall_eq', Creation.own, head?_cons, Option.map_some,
        Prod.mk.injEq, Option.some.injEq, ofValues_inj]
      refine and_congr ?_ hports
      exact ⟨fun h _ => h, fun h => h rfl⟩
  | portAdd config ofport =>
    obtain ⟨made, hmade, hports⟩ := portAdds_apply config [ofport] d
    rw [portAdds_singleton] at hmade
    have hcreate : (Creation.portAdd config ofport).create d = (.ok (none, made), _) :=
      bind_of_ok hmade _
    rw [hcreate]
    refine ⟨rfl, ?_⟩
    change _ ↔ Throughout _ (portConstructs config [ofport])
    simpa [Creation.own] using hports

theorem defaultsAfter_eq (creations : List Creation) : defaultsAfter creations =
    (creations.flatMap Creation.constructs).foldl Construct.leave defaultValue := by
  induction creations using reverseRecOn with
  | nil => rfl
  | append_singleton creations creation ih =>
    rw [defaultsAfter, foldl_concat, ← defaultsAfter, ih, (creation.create_spec _).1]
    simp

/-- The settings of all bridges and ports of a sequence are their own if and only if none of the
constructors is disturbed by those before. -/
theorem asConfigured_iff (creations : List Creation) :
    AsConfigured creations ↔
      Throughout Undisturbed (creations.flatMap Creation.constructs) := by
  rw [throughout_flatMap]
  refine throughout_congr fun before creation => ?_
  rw [(creation.create_spec _).2, defaultsAfter_eq]
  refine throughout_congr fun before' construct => ?_
  rw [← foldl_append, asOwn_iff_undisturbed]

/-- A bridge with a configured priority, and one without a configuration. -/
def twoBridges : List Creation :=
  [.bridge ⟨fun
      | .priority => some (4096 : ℤ)
      | _ => none, ∅⟩ [⟨1, 0x01, 0⟩],
    .bridge ⟨fun _ => none, ∅⟩ [⟨1, 0x02, 0⟩]]

/-- A port that is configured with a path cost. -/
def configuredPort : Creation :=
  .portAdd ⟨fun _ => none, AList.singleton 1 ⟨none, some 100, none⟩⟩ ⟨1, 0x01, 1 <<< 5⟩

/-- The second bridge has the priority of the first one, and the port does not have its path cost.
-/
theorem not_asConfigured_twoBridges :
    ¬AsConfigured twoBridges ∧ ¬AsConfigured [configuredPort] := by
  refine ⟨fun h => ?_, fun h => ?_⟩
  · have hsecond := h (twoBridges.take 1) _ [] rfl _ rfl
    revert hsecond
    decide
  · have hport := h [] configuredPort [] rfl _ rfl
    revert hport
    decide

end BebaCtrl.Stp
